import Mathlib.Logic.Function.Iterate
import Mathlib.Tactic.IntervalCases

namespace Gregorian

/-- Every fourth year, but of the centuries only every fourth. -/
def IsLeap (year : Int) : Prop := year % 4 = 0 ∧ (year % 100 = 0 → year % 400 = 0)

instance (year : Int) : Decidable (IsLeap year) := inferInstanceAs (Decidable (_ ∧ _))

def monthLength (year : Int) (month : Nat) : Nat :=
  if month = 2 then if IsLeap year then 29 else 28
  else if month = 4 ∨ month = 6 ∨ month = 9 ∨ month = 11 then 30
  else 31

theorem monthLength_pos (year : Int) (month : Nat) : 1 ≤ monthLength year month := by
  unfold monthLength
  repeat' split
  all_goals omega

theorem monthLength_le (year : Int) (month : Nat) : monthLength year month ≤ 31 := by
  unfold monthLength
  repeat' split
  all_goals omega

/-- A day of the calendar: the month is one of the year and the day one of the month. -/
structure Date where
  year : Int
  month : Nat
  day : Nat
  month_pos : 1 ≤ month
  month_le : month ≤ 12
  day_pos : 1 ≤ day
  day_le : day ≤ monthLength year month
deriving DecidableEq, Repr

/-- The days of the months up to `month`. -/
def daysThrough (year : Int) : Nat → Nat
  | 0 => 0
  | month + 1 => daysThrough year month + monthLength year (month + 1)

/-- The days of the years from 1 up to before `year`. -/
def daysBefore (year : Int) : Int :=
  365 * (year - 1) + (year - 1) / 4 - (year - 1) / 100 + (year - 1) / 400

theorem daysBefore_succ (year : Int) :
    daysBefore (year + 1) = daysBefore year + if IsLeap year then 366 else 365 := by
  unfold daysBefore
  split
  next h =>
    unfold IsLeap at h
    omega
  next h =>
    unfold IsLeap at h
    omega

/-- The days of the months from March up to before the month of that number. -/
def marchStart (month : Nat) : Nat := (153 * month + 2) / 5

theorem marchStart_succ (year : Int) {month : Nat} (h : month ≤ 9) :
    marchStart (month + 1) = marchStart month + monthLength year (month + 3) := by
  interval_cases month
  all_goals rfl

theorem daysThrough_march (year : Int) {month : Nat} (h : month ≤ 10) :
    daysThrough year (month + 2) = 31 + monthLength year 2 + marchStart month := by
  induction month with
  | zero => exact congrArg (· + monthLength year 2) (Nat.zero_add 31)
  | succ month ih =>
    have hthrough : daysThrough year (month + 1 + 2) =
        daysThrough year (month + 2) + monthLength year (month + 3) := rfl
    rw [hthrough, ih (by omega), marchStart_succ year (by omega)]
    omega

theorem monthLength_february (year : Int) :
    monthLength year 2 = if IsLeap year then 29 else 28 := rfl

theorem daysThrough_twelve (year : Int) :
    daysThrough year 12 = if IsLeap year then 366 else 365 := by
  have hmarch : daysThrough year 12 = 31 + monthLength year 2 + 306 :=
    daysThrough_march year (Nat.le_refl 10)
  rw [hmarch, monthLength_february]
  split
  next => rfl
  next => rfl

namespace Date

variable {date other : Date}

/-- The first of January. -/
def newYear (year : Int) : Date :=
  ⟨year, 1, 1, Nat.le_refl 1, Nat.le_add_left 1 11, Nat.le_refl 1, monthLength_pos _ _⟩

/-- The day after, over the ends of months and years. -/
def next (date : Date) : Date :=
  if hday : date.day < monthLength date.year date.month then
    ⟨date.year, date.month, date.day + 1, date.month_pos, date.month_le, Nat.le_add_left 1 _, hday⟩
  else if hmonth : date.month < 12 then
    ⟨date.year, date.month + 1, 1, Nat.le_add_left 1 _, hmonth, Nat.le_refl 1,
      monthLength_pos _ _⟩
  else newYear (date.year + 1)

/-- The number of the day, counted from the first of January of the year 1. -/
def ordinal (date : Date) : Int :=
  daysBefore date.year + daysThrough date.year (date.month - 1) + date.day

theorem ordinal_next (date : Date) : date.next.ordinal = date.ordinal + 1 := by
  have hpos := date.month_pos
  have hthrough : daysThrough date.year date.month =
      daysThrough date.year (date.month - 1) + monthLength date.year date.month := by
    have hsucc : date.month = date.month - 1 + 1 := by omega
    rw [hsucc]
    rfl
  unfold next
  split
  next hday =>
    dsimp only [ordinal]
    omega
  next hday =>
    have hlast : date.day = monthLength date.year date.month := by
      have hle := date.day_le
      omega
    split
    next hmonth =>
      dsimp only [ordinal]
      rw [Nat.add_sub_cancel]
      omega
    next hmonth =>
      have htwelve : date.month = 12 := by
        have hle := date.month_le
        omega
      rw [htwelve, daysThrough_twelve] at hthrough
      have hyear := daysBefore_succ date.year
      dsimp only [newYear, ordinal]
      rw [hyear, htwelve]
      rw [htwelve] at hlast
      have hzero : daysThrough (date.year + 1) (1 - 1) = 0 := rfl
      rw [hzero]
      split at hthrough
      next hleap =>
        rw [if_pos hleap]
        omega
      next hleap =>
        rw [if_neg hleap]
        omega

theorem ordinal_iterate_next (date : Date) (n : Nat) :
    (next^[n] date).ordinal = date.ordinal + n := by
  induction n with
  | zero => exact (Int.add_zero _).symm
  | succ n ih =>
    rw [Function.iterate_succ_apply', ordinal_next, ih]
    omega

/-- The date stands earlier in the calendar than the other one. -/
def Before (date other : Date) : Prop :=
  date.year < other.year ∨ date.year = other.year ∧
    (date.month < other.month ∨ date.month = other.month ∧ date.day < other.day)

theorem Before.trans {last : Date} (h : date.Before other) (hlast : other.Before last) :
    date.Before last := by
  unfold Before at *
  omega

theorem before_next (date : Date) : date.Before date.next := by
  unfold next
  split
  next => exact Or.inr ⟨rfl, Or.inr ⟨rfl, Nat.lt_succ_self date.day⟩⟩
  next =>
    split
    next => exact Or.inr ⟨rfl, Or.inl (Nat.lt_succ_self date.month)⟩
    next => exact Or.inl (Int.lt_succ date.year)

theorem before_iterate_next (date : Date) {n : Nat} (h : 0 < n) :
    date.Before (Date.next^[n] date) := by
  induction n, h using Nat.le_induction with
  | base => exact before_next date
  | succ n _ ih =>
    rw [Function.iterate_succ_apply']
    exact ih.trans (before_next _)

/-- The year that the date falls in when years begin in March. -/
def marchYear (date : Date) : Int := if date.month ≤ 2 then date.year - 1 else date.year

/-- The months from March on. -/
def marchMonth (date : Date) : Nat := if 2 < date.month then date.month - 3 else date.month + 9

/-- The days from the first of March on. -/
def marchDay (date : Date) : Nat := marchStart date.marchMonth + (date.day - 1)

theorem marchMonth_le (date : Date) : date.marchMonth ≤ 11 := by
  have hle := date.month_le
  unfold marchMonth
  split
  next h => omega
  next h => omega

/-- The day lies in its month, also in the last one, which has not all days of the pattern. -/
theorem marchDay_lt (date : Date) : date.marchDay < marchStart (date.marchMonth + 1) := by
  have hday := date.day_le
  have hpos := date.day_pos
  have hmonth := date.month_pos
  unfold marchDay marchMonth
  split
  next hmarch =>
    have hsucc := marchStart_succ date.year (show date.month - 3 ≤ 9 by
      have hle := date.month_le
      omega)
    have hadd : date.month - 3 + 3 = date.month := by omega
    rw [hadd] at hsucc
    omega
  next hmarch =>
    have hcases : date.month = 1 ∨ date.month = 2 := by omega
    rcases hcases with hone | htwo
    · have hlength : monthLength date.year 1 = 31 := rfl
      rw [hone] at hday ⊢
      unfold marchStart
      omega
    · have hlength := monthLength_february date.year
      rw [htwo] at hday ⊢
      unfold marchStart
      split at hlength
      next => omega
      next => omega

/-- A year from March on has 365 days, and one more before the end of a leap year's February. -/
theorem marchDay_le (date : Date) :
    date.marchDay ≤ 364 ∨ date.marchDay = 365 ∧ IsLeap (date.marchYear + 1) := by
  by_cases htwo : date.month = 2
  · have hday := date.day_le
    have hmonth : date.marchDay = 337 + (date.day - 1) := by
      unfold marchDay marchMonth
      rw [htwo]
      rfl
    have hyear : date.marchYear + 1 = date.year := by
      unfold marchYear
      rw [htwo, if_pos (Nat.le_refl 2)]
      omega
    rw [htwo, monthLength_february] at hday
    rw [hyear, hmonth]
    split at hday
    next hleap =>
      rcases Nat.lt_or_ge date.day 29 with hlt | hge
      · omega
      · exact Or.inr ⟨by omega, hleap⟩
    next => omega
  · have hlt := date.marchDay_lt
    have hpos := date.month_pos
    have hle := date.month_le
    have hmonth : date.marchMonth ≤ 10 := by
      unfold marchMonth
      split
      next h => omega
      next h => omega
    unfold marchStart at hlt
    omega

theorem ordinal_march (date : Date) :
    date.ordinal = 365 * date.marchYear + date.marchYear / 4 - date.marchYear / 100 +
      date.marchYear / 400 + date.marchDay - 305 := by
  have hpos := date.month_pos
  have hday := date.day_pos
  unfold ordinal marchYear marchDay marchMonth
  rcases Nat.lt_or_ge 2 date.month with hmarch | hwinter
  · have hthrough := daysThrough_march date.year (show date.month - 3 ≤ 10 by
      have hle := date.month_le
      omega)
    have hadd : date.month - 3 + 2 = date.month - 1 := by omega
    have hyear := daysBefore_succ date.year
    have hlength := monthLength_february date.year
    rw [hadd] at hthrough
    rw [hthrough, if_neg (Nat.not_le.mpr hmarch), if_pos hmarch]
    unfold daysBefore at hyear ⊢
    rw [Int.add_sub_cancel] at hyear
    split at hlength
    next hleap =>
      rw [if_pos hleap] at hyear
      omega
    next hleap =>
      rw [if_neg hleap] at hyear
      omega
  · rw [if_pos hwinter, if_neg (Nat.not_lt.mpr hwinter)]
    have hcases : date.month = 1 ∨ date.month = 2 := by omega
    unfold daysBefore
    rcases hcases with hone | htwo
    · have hthrough : daysThrough date.year (1 - 1) = 0 := rfl
      have hstart : marchStart (1 + 9) = 306 := rfl
      rw [hone, hthrough, hstart]
      omega
    · have hthrough : daysThrough date.year (2 - 1) = 31 := rfl
      have hstart : marchStart (2 + 9) = 337 := rfl
      rw [htwo, hthrough, hstart]
      omega

/-- The 400 years that the date falls in, after which the calendar repeats. -/
def era (date : Date) : Int := date.marchYear / 400

def yearOfEra (date : Date) : Nat := (date.marchYear % 400).toNat

def dayOfEra (date : Date) : Nat :=
  365 * date.yearOfEra + date.yearOfEra / 4 - date.yearOfEra / 100 + date.marchDay

theorem yearOfEra_lt (date : Date) : date.yearOfEra < 400 := by
  unfold yearOfEra
  omega

theorem marchYear_era (date : Date) : date.marchYear = 400 * date.era + date.yearOfEra := by
  unfold era yearOfEra
  omega

theorem marchDay_le_of_era (date : Date) :
    date.marchDay ≤ 364 ∨ date.marchDay = 365 ∧ IsLeap ((date.yearOfEra : Int) + 1) := by
  have hyear := date.marchYear_era
  rcases date.marchDay_le with hle | ⟨heq, hleap⟩
  · exact Or.inl hle
  · refine Or.inr ⟨heq, ?_⟩
    unfold IsLeap at hleap ⊢
    omega

theorem dayOfEra_le (date : Date) : date.dayOfEra ≤ 146096 := by
  have hlt := date.yearOfEra_lt
  have hday := date.marchDay_le_of_era
  unfold IsLeap at hday
  unfold dayOfEra
  omega

theorem ordinal_era (date : Date) :
    date.ordinal = 146097 * date.era + date.dayOfEra - 305 := by
  have hyear := date.marchYear_era
  have hlt := date.yearOfEra_lt
  have hquarter : date.marchYear / 4 = 100 * date.era + (date.yearOfEra / 4 : Nat) := by omega
  have hcentury : date.marchYear / 100 = 4 * date.era + (date.yearOfEra / 100 : Nat) := by omega
  have hera : date.marchYear / 400 = date.era := rfl
  rw [ordinal_march, hquarter, hcentury, hera]
  unfold dayOfEra
  omega

/-- The divisions take out the leap days that are behind a day, but for the last year of an era. -/
theorem yearOfEra_of_dayOfEra (date : Date) :
    (date.dayOfEra - date.dayOfEra / 1460 + date.dayOfEra / 36524 - date.dayOfEra / 146096) / 365 =
      date.yearOfEra := by
  have hlt := date.yearOfEra_lt
  have hday := date.marchDay_le_of_era
  obtain ⟨a, b, k, ha, hb, hk, hsplit⟩ : ∃ a b k : Nat, a ≤ 3 ∧ b ≤ 24 ∧ k ≤ 3 ∧
      date.yearOfEra = 100 * a + 4 * b + k :=
    ⟨date.yearOfEra / 100, date.yearOfEra % 100 / 4, date.yearOfEra % 4, by omega⟩
  obtain ⟨d, hd⟩ : ∃ d, d = date.dayOfEra := ⟨_, rfl⟩
  have hlast : date.marchDay = 365 → k = 3 ∧ (b = 24 → a = 3) := by
    unfold IsLeap at hday
    omega
  have hdays : d = 36524 * a + (1461 * b + 365 * k + date.marchDay) := by
    unfold dayOfEra at hd
    omega
  have hcentury : d / 36524 = a + d / 146096 := by
    by_cases hend : d = 146096
    · rw [hend]
      omega
    · have hone : d / 36524 = a := by omega
      have hzero : d / 146096 = 0 := by omega
      omega
  have hfour : d / 1460 = 25 * a + b + (24 * a + b + 365 * k + date.marchDay) / 1460 := by omega
  have hcarry : (24 * a + b + 365 * k + date.marchDay) / 1460 = 0 ∧ date.marchDay < 365 ∨
      (24 * a + b + 365 * k + date.marchDay) / 1460 = 1 ∧ 0 < date.marchDay := by omega
  rw [← hd]
  omega

theorem marchMonth_of_marchDay (date : Date) : (5 * date.marchDay + 2) / 153 = date.marchMonth := by
  have hlt := date.marchDay_lt
  have hle : marchStart date.marchMonth ≤ date.marchDay := Nat.le_add_right _ _
  unfold marchStart at hle hlt
  omega

end Date

end Gregorian
