import Mathlib.Algebra.Order.Group.Int
import Mathlib.Data.Nat.Find
import Mathlib.Order.Bounds.Basic
import Mathlib.Order.Monotone.Basic
import Mathlib.Tactic.NormNum.Basic

/-!
# The Gregorian calendar, as a clock counts

Days and milliseconds are counted from the first of January 1970, before it with
negative numbers, and years without end in both directions. `fullYear` and `month`
read the fields of a date off a number of days, and `utc` goes back from a year, a
month and a day of the month to the milliseconds.

The first of a date's month is thereby computed from its fields. `isGreatest_first`
says what it is without them: of all the instants at which a month begins, the
last that is not after the given one.
-/

namespace Base

namespace Calendar

def msPerDay : Int := 86400000

/-- `DayFromYear`: the days before the year begins. -/
def dayFromYear (y : Int) : Int :=
  365 * (y - 1970) + (y - 1969) / 4 - (y - 1901) / 100 + (y - 1601) / 400

def leap (y : Int) : Bool := y % 4 == 0 && (y % 100 != 0 || y % 400 == 0)

def daysInYear (y : Int) : Int := if leap y then 366 else 365

theorem dayFromYear_succ (y : Int) : dayFromYear (y + 1) = dayFromYear y + daysInYear y := by
  have hleap : leap y = true ↔ y % 4 = 0 ∧ (y % 100 ≠ 0 ∨ y % 400 = 0) := by simp [leap]
  unfold dayFromYear daysInYear
  by_cases h : leap y = true
  · have := hleap.mp h
    rw [if_pos h]
    omega
  · have : ¬ (y % 4 = 0 ∧ (y % 100 ≠ 0 ∨ y % 400 = 0)) := fun hy => h (hleap.mpr hy)
    rw [if_neg h]
    omega

/-- The calendar repeats after four hundred years. -/
theorem dayFromYear_era (y k : Int) : dayFromYear (y + 400 * k) = dayFromYear y + 146097 * k := by
  unfold dayFromYear
  omega

/-- The days of a year before its month, counted from zero, begins. -/
def daysBefore (y : Int) (m : Nat) : Int :=
  match m with
  | 0 => 0
  | 1 => 31
  | m + 2 =>
    (if leap y then 1 else 0) +
      match m with
      | 0 => 59
      | 1 => 90
      | 2 => 120
      | 3 => 151
      | 4 => 181
      | 5 => 212
      | 6 => 243
      | 7 => 273
      | 8 => 304
      | _ => 334

/-! ## Fields -/

/-- `YearFromTime` of a day: within its four hundred years, the last that has begun. -/
def fullYear (day : Int) : Int :=
  let era := (day - dayFromYear 2000) / 146097
  2000 + 400 * era +
    Nat.findGreatest (fun k => dayFromYear (2000 + k) ≤ day - 146097 * era) 399

/-- `MonthFromTime` of a day, counted from zero. -/
def month (day : Int) : Nat :=
  Nat.findGreatest (fun m => daysBefore (fullYear day) m ≤ day - dayFromYear (fullYear day)) 11

/-- `Date.UTC`, for a month counted from zero. Years of at most two digits are taken
to be of the twentieth century. -/
def utc (y : Int) (m : Nat) (date : Int) : Int :=
  let year := if 0 ≤ y ∧ y ≤ 99 then 1900 + y else y
  msPerDay * (dayFromYear year + daysBefore year m + (date - 1))

example : utc (fullYear 20454) (month 20454) 1 = 1767225600000 := by decide +kernel

/-- The year has begun and the next one has not. -/
theorem fullYear_spec (day : Int) :
    dayFromYear (fullYear day) ≤ day ∧ day < dayFromYear (fullYear day + 1) := by
  unfold fullYear
  generalize hera : (day - dayFromYear 2000) / 146097 = era
  dsimp only
  generalize hk : Nat.findGreatest (fun k => dayFromYear (2000 + k) ≤ day - 146097 * era) 399 = k
  have hle : k ≤ 399 := by
    rw [← hk]
    exact Nat.findGreatest_le 399
  have hstart : dayFromYear (2000 + (0 : Nat)) ≤ day - 146097 * era := by
    unfold dayFromYear at hera ⊢
    omega
  have hbegun : dayFromYear (2000 + k) ≤ day - 146097 * era := by
    have := Nat.findGreatest_spec (P := fun k : Nat => dayFromYear (2000 + k) ≤ day - 146097 * era)
      (Nat.zero_le 399) hstart
    rw [hk] at this
    exact this
  have hnext : day - 146097 * era < dayFromYear (2000 + k + 1) := by
    by_cases hlast : k = 399
    · rw [hlast]
      unfold dayFromYear at hera ⊢
      omega
    · have := Nat.findGreatest_is_greatest
        (P := fun k : Nat => dayFromYear (2000 + k) ≤ day - 146097 * era) (n := 399) (k := k + 1)
        (by rw [hk]; omega) (by omega)
      push_cast at this
      rw [← add_assoc] at this
      omega
  have hsum : (2000 : Int) + 400 * era + k = 2000 + k + 400 * era := by omega
  constructor
  · rw [hsum, dayFromYear_era]
    omega
  · have hsum' : (2000 : Int) + k + 400 * era + 1 = 2000 + k + 1 + 400 * era := by omega
    rw [hsum, hsum', dayFromYear_era]
    omega

/-! ## Months -/

/-- The day on which a month begins; months are numbered through all years. -/
def monthDay (n : Int) : Int := dayFromYear (n / 12) + daysBefore (n / 12) (n % 12).toNat

theorem monthDay_of {y : Int} {m : Nat} (h : m < 12) :
    monthDay (12 * y + m) = dayFromYear y + daysBefore y m := by
  have hdiv : (12 * y + m) / 12 = y := by omega
  have hmod : ((12 * y + m) % 12).toNat = m := by omega
  unfold monthDay
  rw [hdiv, hmod]

theorem daysBefore_lt {y : Int} {m : Nat} (h : m < 11) : daysBefore y m < daysBefore y (m + 1) := by
  have hcase : m = 0 ∨ m = 1 ∨ m = 2 ∨ m = 3 ∨ m = 4 ∨ m = 5 ∨ m = 6 ∨ m = 7 ∨ m = 8 ∨ m = 9 ∨
    m = 10 := by omega
  cases hleap : leap y <;>
    rcases hcase with rfl | rfl | rfl | rfl | rfl | rfl | rfl | rfl | rfl | rfl | rfl <;>
      simp [daysBefore, hleap]

theorem daysBefore_december {y : Int} : daysBefore y 11 < daysInYear y := by
  unfold daysBefore daysInYear
  cases leap y <;> decide

/-- The days of a year, as pairs of month and day, follow one another in order. -/
theorem monthDay_lt_succ (n : Int) : monthDay n < monthDay (n + 1) := by
  obtain ⟨y, m, hm, rfl⟩ : ∃ (y : Int) (m : Nat), m < 12 ∧ n = 12 * y + m :=
    ⟨n / 12, (n % 12).toNat, by omega, by omega⟩
  rw [monthDay_of hm]
  by_cases hlast : m = 11
  · have hnext : (12 * y + m : Int) + 1 = 12 * (y + 1) + (0 : Nat) := by
      rw [hlast]
      push_cast
      omega
    have hdec := daysBefore_december (y := y)
    rw [hnext, monthDay_of (by omega), dayFromYear_succ, hlast]
    show _ < dayFromYear y + daysInYear y + 0
    omega
  · have hnext : (12 * y + m : Int) + 1 = 12 * y + (m + 1 : Nat) := by
      push_cast
      omega
    have hlt := daysBefore_lt (y := y) (show m < 11 by omega)
    rw [hnext, monthDay_of (by omega)]
    omega

theorem monthDay_lt {m n : Int} (h : m < n) : monthDay m < monthDay n :=
  strictMono_int_of_lt_succ monthDay_lt_succ h

/-- The month has begun and the next one has not. -/
theorem month_spec (day : Int) : month day < 12 ∧
    monthDay (12 * fullYear day + month day) ≤ day ∧
      day < monthDay (12 * fullYear day + month day + 1) := by
  obtain ⟨hyear, hnext⟩ := fullYear_spec day
  unfold month
  generalize fullYear day = y at hyear hnext ⊢
  generalize hm : Nat.findGreatest (fun m => daysBefore y m ≤ day - dayFromYear y) 11 = m
  have hle : m ≤ 11 := by
    rw [← hm]
    exact Nat.findGreatest_le 11
  have hbegun : daysBefore y m ≤ day - dayFromYear y := by
    have := Nat.findGreatest_spec (P := fun m => daysBefore y m ≤ day - dayFromYear y)
      (Nat.zero_le 11) (show daysBefore y 0 ≤ _ by show (0 : Int) ≤ _; omega)
    rw [hm] at this
    exact this
  refine ⟨by omega, ?_, ?_⟩
  · rw [monthDay_of (by omega)]
    omega
  · by_cases hlast : m = 11
    · have hsum : (12 * y + m : Int) + 1 = 12 * (y + 1) + (0 : Nat) := by
        rw [hlast]
        push_cast
        omega
      rw [hsum, monthDay_of (by omega)]
      show day < dayFromYear (y + 1) + 0
      omega
    · have hsum : (12 * y + m : Int) + 1 = 12 * y + (m + 1 : Nat) := by
        push_cast
        omega
      have := Nat.findGreatest_is_greatest
        (P := fun m => daysBefore y m ≤ day - dayFromYear y) (n := 11) (k := m + 1)
        (by rw [hm]; omega) (by omega)
      rw [hsum, monthDay_of (by omega)]
      omega

/-! ## The first of a month -/

/-- The instants at which a month begins. -/
def MonthStart (t : Int) : Prop := ∃ n, t = msPerDay * monthDay n

/-- **The first of a date's month is the last beginning of a month that is not after
it.** -/
theorem isGreatest_first {t : Int} (h : 0 ≤ t) :
    IsGreatest {s | MonthStart s ∧ s ≤ t}
      (utc (fullYear (t / msPerDay)) (month (t / msPerDay)) 1) := by
  have hdiv : t = msPerDay * (t / msPerDay) + t % msPerDay ∧ 0 ≤ t % msPerDay ∧
      t % msPerDay < msPerDay := by
    unfold msPerDay
    omega
  have hday : 0 ≤ t / msPerDay := Int.ediv_nonneg h (by decide)
  generalize t / msPerDay = day at hdiv hday ⊢
  obtain ⟨hm, hbegun, hnext⟩ := month_spec day
  -- no date after the epoch has a year of two digits
  have hyear : ¬ (0 ≤ fullYear day ∧ fullYear day ≤ 99) := by
    obtain ⟨_, hend⟩ := fullYear_spec day
    intro ⟨_, hlt⟩
    unfold dayFromYear at hend
    omega
  have hutc : utc (fullYear day) (month day) 1 =
      msPerDay * monthDay (12 * fullYear day + month day) := by
    unfold utc
    rw [if_neg hyear, monthDay_of hm]
    dsimp only
    rw [sub_self, add_zero]
  rw [hutc]
  constructor
  · refine ⟨⟨_, rfl⟩, ?_⟩
    unfold msPerDay at hdiv ⊢
    omega
  · intro s ⟨⟨n, hs⟩, hst⟩
    have hle : monthDay n ≤ day := by
      unfold msPerDay at hdiv hs
      omega
    have hlt : n < 12 * fullYear day + month day + 1 :=
      (StrictMono.lt_iff_lt fun _ _ => monthDay_lt).mp (by omega)
    have hmono := (StrictMono.monotone fun _ _ => monthDay_lt) (show n ≤ 12 * fullYear day + month day by omega)
    rw [hs]
    unfold msPerDay
    omega

end Calendar

end Base
