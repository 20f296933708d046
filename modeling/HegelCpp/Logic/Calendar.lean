import HegelCpp.Logic.FixedWidth
import Mathlib.Algebra.BigOperators.Group.Finset.Basic
import Mathlib.Algebra.Order.BigOperators.Group.Finset

/-! The proleptic Gregorian calendar and the time of day to the microsecond.
Fields are ordered by the day and by the instant they stand for, which is the
order of the fields one after another. -/
namespace Logic.Calendar

open FixedWidth

/-- The parts of different sizes are laid out one after the other; positions
in them count from one. -/
theorem sum_add_lt_iff {size : Nat → Nat} {i j a b : Nat} (ha : 0 < a) (hFits : a ≤ size i)
    (hb : 0 < b) (hFits' : b ≤ size j) :
    ∑ k ∈ Finset.range i, size k + a < ∑ k ∈ Finset.range j, size k + b ↔
      i < j ∨ i = j ∧ a < b := by
  have hAfter : ∀ {i j : Nat}, i < j →
      ∑ k ∈ Finset.range i, size k + size i ≤ ∑ k ∈ Finset.range j, size k := by
    intro i j hLt
    rw [← Finset.sum_range_succ]
    exact Finset.sum_le_sum_of_subset (Finset.range_mono hLt)
  rcases Nat.lt_trichotomy i j with hLess | rfl | hMore
  · have hAfter := hAfter hLess
    omega
  · omega
  · have hAfter := hAfter hMore
    omega

/-! Dates. -/

/-- Every fourth year, of the centuries every fourth. -/
def isLeap (year : Nat) : Bool := year % 4 == 0 && (year % 100 != 0 || year % 400 == 0)

def daysInMonth (year month : Nat) : Nat :=
  match month with
  | 2 => if isLeap year then 29 else 28
  | 4 | 6 | 9 | 11 => 30
  | 0 => 0
  | _ => 31

theorem daysInMonth_le (year month : Nat) : daysInMonth year month ≤ 31 := by
  unfold daysInMonth
  split
  · split <;> omega
  all_goals omega

def daysInYear (year : Nat) : Nat := if isLeap year then 366 else 365

@[ext] structure Date where
  year : Nat
  month : Nat
  day : Nat
  deriving DecidableEq, Repr

namespace Date

/-- The calendar has this date. -/
structure Valid (date : Date) : Prop where
  month_pos : 0 < date.month
  month_le : date.month ≤ 12
  day_pos : 0 < date.day
  day_le : date.day ≤ daysInMonth date.year date.month

/-- The date's place in its year. -/
def dayOfYear (date : Date) : Nat :=
  ∑ month ∈ Finset.range date.month, daysInMonth date.year month + date.day

/-- The date's place on the calendar. -/
def ordinal (date : Date) : Nat :=
  ∑ year ∈ Finset.range date.year, daysInYear year + date.dayOfYear

/-- Field by field, from the largest unit. -/
def Before (date date' : Date) : Prop :=
  date.year < date'.year ∨ date.year = date'.year ∧
    (date.month < date'.month ∨ date.month = date'.month ∧ date.day < date'.day)

variable {date date' : Date}

theorem Valid.dayOfYear_pos (h : date.Valid) : 0 < date.dayOfYear :=
  Nat.add_pos_right _ h.day_pos

theorem sum_daysInMonth (year : Nat) :
    ∑ month ∈ Finset.range 13, daysInMonth year month = daysInYear year := by
  simp only [Finset.sum_range_succ, Finset.sum_range_zero, daysInMonth, daysInYear]
  split <;> rfl

theorem Valid.dayOfYear_le (h : date.Valid) : date.dayOfYear ≤ daysInYear date.year := by
  have hMonth : date.month < 13 := Nat.lt_succ_of_le h.month_le
  calc date.dayOfYear
      ≤ ∑ month ∈ Finset.range (date.month + 1), daysInMonth date.year month := by
        rw [Finset.sum_range_succ]
        exact Nat.add_le_add_left h.day_le _
    _ ≤ ∑ month ∈ Finset.range 13, daysInMonth date.year month :=
        Finset.sum_le_sum_of_subset (Finset.range_mono hMonth)
    _ = daysInYear date.year := sum_daysInMonth date.year

theorem ordinal_lt_iff (h : date.Valid) (h' : date'.Valid) :
    date.ordinal < date'.ordinal ↔ date.Before date' := by
  rw [ordinal, ordinal, sum_add_lt_iff h.dayOfYear_pos h.dayOfYear_le h'.dayOfYear_pos
    h'.dayOfYear_le]
  apply or_congr Iff.rfl
  apply and_congr_right
  intro hYear
  rw [dayOfYear, dayOfYear, ← hYear]
  exact sum_add_lt_iff h.day_pos h.day_le h'.day_pos (hYear ▸ h'.day_le)

theorem before_trichotomy (date date' : Date) :
    date.Before date' ∨ date = date' ∨ date'.Before date := by
  rw [Before, Before, Date.ext_iff]
  omega

theorem ordinal_inj (h : date.Valid) (h' : date'.Valid) :
    date.ordinal = date'.ordinal ↔ date = date' := by
  constructor
  · intro hSame
    rcases before_trichotomy date date' with hBefore | hDate | hAfter
    · exact absurd hSame (ordinal_lt_iff h h' |>.mpr hBefore).ne
    · exact hDate
    · exact absurd hSame (ordinal_lt_iff h' h |>.mpr hAfter).ne'
  · rintro rfl
    rfl

end Date

/-! The time of day. -/

@[ext] structure Time where
  hour : Nat
  minute : Nat
  second : Nat
  microsecond : Nat
  deriving DecidableEq, Repr

namespace Time

structure Valid (time : Time) : Prop where
  hour_lt : time.hour < 24
  minute_lt : time.minute < 60
  second_lt : time.second < 60
  microsecond_lt : time.microsecond < 1000000

/-- The microseconds since midnight. -/
def sinceMidnight (time : Time) : Nat :=
  ((time.hour * 60 + time.minute) * 60 + time.second) * 1000000 + time.microsecond

/-- Field by field, from the largest unit. -/
def Before (time time' : Time) : Prop :=
  time.hour < time'.hour ∨ time.hour = time'.hour ∧
    (time.minute < time'.minute ∨ time.minute = time'.minute ∧
      (time.second < time'.second ∨ time.second = time'.second ∧
        time.microsecond < time'.microsecond))

variable {time time' : Time}

theorem Valid.sinceMidnight_lt (h : time.Valid) : time.sinceMidnight < 86400000000 := by
  obtain ⟨hHour, hMinute, hSecond, hMicrosecond⟩ := h
  rw [sinceMidnight]
  omega

theorem sinceMidnight_lt_iff (h : time.Valid) (h' : time'.Valid) :
    time.sinceMidnight < time'.sinceMidnight ↔ time.Before time' := by
  obtain ⟨_, hMinute, hSecond, hMicrosecond⟩ := h
  obtain ⟨_, hMinute', hSecond', hMicrosecond'⟩ := h'
  rw [sinceMidnight, sinceMidnight, mul_add_lt_iff hMicrosecond hMicrosecond',
    mul_add_lt_iff hSecond hSecond', mul_add_lt_iff hMinute hMinute', Before]
  omega

end Time

/-! Dates with a time of day. -/

@[ext] structure Datetime where
  date : Date
  time : Time
  deriving DecidableEq, Repr

namespace Datetime

structure Valid (datetime : Datetime) : Prop where
  date : datetime.date.Valid
  time : datetime.time.Valid

/-- The microseconds since the calendar's beginning. -/
def instant (datetime : Datetime) : Nat :=
  datetime.date.ordinal * 86400000000 + datetime.time.sinceMidnight

/-- The day first. -/
def Before (datetime datetime' : Datetime) : Prop :=
  datetime.date.Before datetime'.date ∨
    datetime.date = datetime'.date ∧ datetime.time.Before datetime'.time

theorem instant_lt_iff {datetime datetime' : Datetime} (h : datetime.Valid)
    (h' : datetime'.Valid) :
    datetime.instant < datetime'.instant ↔ datetime.Before datetime' := by
  rw [instant, instant, mul_add_lt_iff h.time.sinceMidnight_lt h'.time.sinceMidnight_lt,
    Date.ordinal_lt_iff h.date h'.date, Date.ordinal_inj h.date h'.date,
    Time.sinceMidnight_lt_iff h.time h'.time, Before]

end Datetime

end Logic.Calendar
