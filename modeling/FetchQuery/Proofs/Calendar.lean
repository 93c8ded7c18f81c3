import FetchQuery.Operator.Basic
import Mathlib

namespace FetchQuery.Calendar

def minuteLength : Int := 60000000

def hourLength : Int := 60 * minuteLength

def dayLength : Int := 24 * hourLength

def weekLength : Int := 7 * dayLength

def marchYearStart (year : Int) : Int := 365 * year + year / 4 - year / 100 + year / 400

/-- The first day of a month, where March of the year 0 is month 0. -/
def monthStart (month : Int) : Int := marchYearStart (month / 12) + (153 * (month % 12) + 2) / 5

/-- The year that the mean length of years gives, or one of its neighbours. -/
def marchYearOf (day : Int) : Int :=
  let year := 400 * day / 146097
  if day < marchYearStart year then year - 1
  else if marchYearStart (year + 1) ≤ day then year + 1
  else year

def monthOf (day : Int) : Int :=
  12 * marchYearOf day + (5 * (day - marchYearStart (marchYearOf day)) + 2) / 153

theorem marchYearStart_succ (year : Int) : marchYearStart year + 365 ≤ marchYearStart (year + 1) ∧
    marchYearStart (year + 1) ≤ marchYearStart year + 366 := by
  unfold marchYearStart
  omega

theorem marchYearOf_spec (day : Int) :
    marchYearStart (marchYearOf day) ≤ day ∧ day < marchYearStart (marchYearOf day + 1) := by
  unfold marchYearOf
  simp only
  split
  next h =>
    unfold marchYearStart at *
    omega
  next h =>
    split
    next h' =>
      unfold marchYearStart at *
      omega
    next h' => omega

theorem monthStart_lt_succ (month : Int) : monthStart month < monthStart (month + 1) := by
  unfold monthStart marchYearStart
  omega

/-- February has a leap day in 2000, but not in 1900. -/
example : monthStart (12 * 1900) - monthStart (12 * 1900 - 1) = 28 ∧
    monthStart (12 * 2000) - monthStart (12 * 2000 - 1) = 29 := by decide

theorem strictMono_monthStart : StrictMono monthStart := strictMono_int_of_lt_succ monthStart_lt_succ

theorem eq_of_between {f : Int → Int} (hf : StrictMono f) {t i j : Int} (hi : f i ≤ t ∧ t < f (i + 1))
    (hj : f j ≤ t ∧ t < f (j + 1)) : i = j := by
  have hij : i < j + 1 := hf.lt_iff_lt.1 (Int.lt_of_le_of_lt hi.1 hj.2)
  have hji : j < i + 1 := hf.lt_iff_lt.1 (Int.lt_of_le_of_lt hj.1 hi.2)
  omega

theorem monthOf_spec (day : Int) :
    monthStart (monthOf day) ≤ day ∧ day < monthStart (monthOf day + 1) := by
  obtain ⟨hstart, hend⟩ := marchYearOf_spec day
  have hlength := marchYearStart_succ (marchYearOf day)
  unfold monthOf monthStart
  generalize marchYearOf day = year at *
  have hday : 0 ≤ day - marchYearStart year ∧ day - marchYearStart year ≤ 365 := by omega
  -- from March on, every five months have 153 days
  generalize hm : (5 * (day - marchYearStart year) + 2) / 153 = month
  have hmonth : 0 ≤ month ∧ month ≤ 11 := by omega
  rw [show (12 * year + month) / 12 = year by omega, show (12 * year + month) % 12 = month by omega]
  refine ⟨by omega, ?_⟩
  by_cases hlast : month = 11
  · rw [show (12 * year + month + 1) / 12 = year + 1 by omega,
      show (12 * year + month + 1) % 12 = 0 by omega]
    omega
  · rw [show (12 * year + month + 1) / 12 = year by omega,
      show (12 * year + month + 1) % 12 = month + 1 by omega]
    omega

inductive WeekStart where
  | sunday | monday
  deriving DecidableEq

/-- The days from the start of a week to the first day of all. -/
def WeekStart.offset : WeekStart → Int
  | sunday => 3
  | monday => 2

/-- The number of the minute, hour, day, week, month or year that an instant falls into. Months are
counted from March, and years from January of the year 0. -/
def index (w : WeekStart) (part : DatePart) (t : Int) : Int :=
  match part with
  | .minute => t / minuteLength
  | .hour => t / hourLength
  | .day => t / dayLength
  | .week => (t / dayLength + w.offset) / 7
  | .month => monthOf (t / dayLength)
  | .year => (monthOf (t / dayLength) + 2) / 12

def start (w : WeekStart) (part : DatePart) (i : Int) : Int :=
  match part with
  | .minute => i * minuteLength
  | .hour => i * hourLength
  | .day => i * dayLength
  | .week => (7 * i - w.offset) * dayLength
  | .month => monthStart i * dayLength
  | .year => monthStart (12 * i - 2) * dayLength

/-- The instant that many months later, on the last day of the month if that has no such day. -/
def shiftMonths (n t : Int) : Int :=
  let month := monthOf (t / dayLength)
  let day := min (t / dayLength - monthStart month)
    (monthStart (month + n + 1) - monthStart (month + n) - 1)
  (monthStart (month + n) + day) * dayLength + t % dayLength

def shift (part : DatePart) (n t : Int) : Int :=
  match part with
  | .minute => t + n * minuteLength
  | .hour => t + n * hourLength
  | .day => t + n * dayLength
  | .week => t + n * weekLength
  | .month => shiftMonths n t
  | .year => shiftMonths (12 * n) t

theorem strictMono_start (w : WeekStart) (part : DatePart) : StrictMono (start w part) := by
  apply strictMono_int_of_lt_succ
  intro i
  cases part with
  | minute => simp only [start, minuteLength]; omega
  | hour => simp only [start, hourLength, minuteLength]; omega
  | day | week => simp only [start, dayLength, hourLength, minuteLength]; omega
  | month =>
    have hm := monthStart_lt_succ i
    simp only [start, dayLength, hourLength, minuteLength]
    omega
  | year =>
    have hm : monthStart (12 * i - 2) < monthStart (12 * (i + 1) - 2) :=
      strictMono_monthStart (by omega)
    simp only [start, dayLength, hourLength, minuteLength]
    omega

theorem index_spec (w : WeekStart) (part : DatePart) (t : Int) :
    start w part (index w part t) ≤ t ∧ t < start w part (index w part t + 1) := by
  cases part with
  | minute => simp only [start, index, minuteLength]; omega
  | hour => simp only [start, index, hourLength, minuteLength]; omega
  | day => simp only [start, index, dayLength, hourLength, minuteLength]; omega
  | week => simp only [start, index, dayLength, hourLength, minuteLength]; omega
  | month =>
    have hm := monthOf_spec (t / dayLength)
    simp only [start, index, dayLength, hourLength, minuteLength] at hm ⊢
    omega
  | year =>
    -- months are counted from March, so January is two months before a multiple of twelve
    have hm := monthOf_spec (t / dayLength)
    generalize hmonth : monthOf (t / dayLength) = month at hm
    have hs : monthStart (12 * ((month + 2) / 12) - 2) ≤ monthStart month :=
      strictMono_monthStart.monotone (by omega)
    have he : monthStart (month + 1) ≤ monthStart (12 * ((month + 2) / 12 + 1) - 2) :=
      strictMono_monthStart.monotone (by omega)
    simp only [start, index, hmonth]
    simp only [dayLength, hourLength, minuteLength] at hm ⊢
    omega

theorem index_le {w : WeekStart} {part : DatePart} {t u : Int} (h : t ≤ u) :
    index w part t ≤ index w part u := by
  have ht := (index_spec w part t).1
  have hu := (index_spec w part u).2
  have hlt : index w part t < index w part u + 1 := (strictMono_start w part).lt_iff_lt.1 (by omega)
  omega

theorem monthOf_monthStart (month : Int) : monthOf (monthStart month) = month :=
  eq_of_between strictMono_monthStart (monthOf_spec _) ⟨Int.le_refl _, monthStart_lt_succ month⟩

theorem shiftMonths_spec (n t : Int) :
    monthOf (shiftMonths n t / dayLength) = monthOf (t / dayLength) + n := by
  have hm := monthOf_spec (t / dayLength)
  have hn := monthStart_lt_succ (monthOf (t / dayLength) + n)
  have hday : shiftMonths n t / dayLength = monthStart (monthOf (t / dayLength) + n) +
      min (t / dayLength - monthStart (monthOf (t / dayLength)))
        (monthStart (monthOf (t / dayLength) + n + 1) - monthStart (monthOf (t / dayLength) + n) - 1) := by
    simp only [shiftMonths, dayLength, hourLength, minuteLength]
    omega
  rw [hday]
  apply eq_of_between strictMono_monthStart (monthOf_spec _)
  omega

theorem index_shift (w : WeekStart) (part : DatePart) (n t : Int) :
    index w part (shift part n t) = index w part t + n := by
  cases part with
  | minute => simp only [index, shift, minuteLength]; omega
  | hour => simp only [index, shift, hourLength, minuteLength]; omega
  | day => simp only [index, shift, dayLength, hourLength, minuteLength]; omega
  | week => simp only [index, shift, weekLength, dayLength, hourLength, minuteLength]; omega
  | month => exact shiftMonths_spec n t
  | year =>
    simp only [index, shift, shiftMonths_spec]
    omega

theorem shift_zero (part : DatePart) (t : Int) : shift part 0 t = t := by
  have hm := monthOf_spec (t / dayLength)
  cases part with
  | minute | hour | day | week => simp [shift]
  | month | year =>
    simp only [shift, shiftMonths, Int.mul_zero, Int.add_zero]
    simp only [dayLength, hourLength, minuteLength] at hm ⊢
    omega

theorem shiftMonths_start (n month : Int) :
    shiftMonths n (monthStart month * dayLength) = monthStart (month + n) * dayLength := by
  have hlength : dayLength ≠ 0 := by decide
  have hn := monthStart_lt_succ (month + n)
  have hmin : min (0 : Int) (monthStart (month + n + 1) - monthStart (month + n) - 1) = 0 := by omega
  simp only [shiftMonths, Int.mul_ediv_cancel _ hlength, Int.mul_emod_left, monthOf_monthStart,
    Int.sub_self, hmin, Int.add_zero]

theorem shift_start (w : WeekStart) (part : DatePart) (n i : Int) :
    shift part n (start w part i) = start w part (i + n) := by
  cases part with
  | minute => simp only [shift, start, minuteLength]; omega
  | hour => simp only [shift, start, hourLength, minuteLength]; omega
  | day => simp only [shift, start, dayLength, hourLength, minuteLength]; omega
  | week => simp only [shift, start, weekLength, dayLength, hourLength, minuteLength]; omega
  | month => exact shiftMonths_start n i
  | year =>
    rw [shift, start, shiftMonths_start, start]
    congr 2
    omega

/-- A week that starts on Sunday is one ahead of one that starts on Monday, on Sundays only. -/
theorem index_week (t : Int) :
    index .sunday .week t = index .monday .week t + if (t / dayLength + 3) % 7 = 0 then 1 else 0 := by
  simp only [index, WeekStart.offset]
  split <;> omega

end FetchQuery.Calendar
