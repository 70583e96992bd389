import Mathlib.Order.Basic

/-!
# The Gregorian calendar

The proleptic Gregorian calendar by its months. A month is the number of months since January of the
year 0, a day the number of days since 1 January 1970. `firstDay` is the first day of a month; it
grows with the month, by 28 to 31 days (`firstDay_succ`), so every day is in one month, and
`monthOf` is that month (`monthOf_spec`).
-/

namespace Calendar

/-- The leap days of the years before `year`, from the year 0 on; a year begins in March and ends
with its leap day. -/
def leapDays (year : Int) : Int := year / 4 - year / 100 + year / 400

/-- The days before a month of such a year: five months from March or August on have 153 days. -/
def daysBefore (month : Int) : Int := (153 * month + 2) / 5

/-- The first day of a month. -/
def firstDay (month : Int) : Int :=
  365 * ((month - 2) / 12) + leapDays ((month - 2) / 12) + daysBefore ((month - 2) % 12) - 719468

theorem leapDays_succ (year : Int) :
    leapDays (year + 1) = leapDays year ∨ leapDays (year + 1) = leapDays year + 1 := by
  have h : ∀ y : Int, leapDays y = y / 4 - y / 4 / 25 + y / 4 / 25 / 4 := by
    intro y
    rw [leapDays]
    omega
  rw [h, h]
  have hstep : (year + 1) / 4 = year / 4 ∨ (year + 1) / 4 = year / 4 + 1 := by omega
  rcases hstep with hstep | hstep
  · rw [hstep]
    exact .inl rfl
  · rw [hstep]
    omega

/-- A month has 28 to 31 days. -/
theorem firstDay_succ (month : Int) :
    firstDay month + 28 ≤ firstDay (month + 1) ∧ firstDay (month + 1) ≤ firstDay month + 31 := by
  simp only [firstDay, daysBefore]
  have hnext : (month + 1 - 2) / 12 = (month - 2) / 12 ∧
      (month + 1 - 2) % 12 = (month - 2) % 12 + 1 ∧ (month - 2) % 12 ≤ 10 ∨
      (month + 1 - 2) / 12 = (month - 2) / 12 + 1 ∧
      (month + 1 - 2) % 12 = 0 ∧ (month - 2) % 12 = 11 := by omega
  rcases hnext with ⟨hyear, hmonth, hle⟩ | ⟨hyear, hmonth, hlast⟩
  · rw [hyear, hmonth]
    omega
  · rw [hyear, hmonth, hlast]
    have := leapDays_succ ((month - 2) / 12)
    omega

/-- Days and months grow together, 146097 days in 4800 months, up to a few days. -/
theorem firstDay_bounds (month : Int) :
    146097 * month - 4800 * 5 ≤ 4800 * (firstDay month + 719528) ∧
      4800 * (firstDay month + 719528) ≤ 146097 * month + 4800 * 5 := by
  simp only [firstDay, daysBefore]
  have hleap : 97 * ((month - 2) / 12) - 699 ≤ 400 * leapDays ((month - 2) / 12) ∧
      400 * leapDays ((month - 2) / 12) ≤ 97 * ((month - 2) / 12) + 396 := by
    simp only [leapDays]
    omega
  omega

theorem firstDay_add (month : Int) (n : Nat) : firstDay month + 28 * n ≤ firstDay (month + n) := by
  induction n with
  | zero => simp
  | succ n ih =>
    have := (firstDay_succ (month + n)).1
    rw [show month + ((n + 1 : Nat) : Int) = month + n + 1 by omega]
    omega

theorem firstDay_lt_iff {m n : Int} : firstDay m < firstDay n ↔ m < n := by
  rcases Int.lt_or_le m n with h | h
  · have := firstDay_add m (n - m).toNat
    rw [show m + ((n - m).toNat : Int) = n by omega] at this
    omega
  · have := firstDay_add n (m - n).toNat
    rw [show n + ((m - n).toNat : Int) = m by omega] at this
    omega

/-- The month that a day is in: the one that the mean length of a month gives, or the one next to
it. -/
def monthOf (date : Int) : Int :=
  let guess := 4800 * (date + 719528) / 146097
  if date < firstDay guess then guess - 1
  else if date < firstDay (guess + 1) then guess
  else guess + 1

theorem monthOf_spec (date : Int) :
    firstDay (monthOf date) ≤ date ∧ date < firstDay (monthOf date + 1) := by
  rw [monthOf]
  generalize hguess : 4800 * (date + 719528) / 146097 = guess
  split
  · have := firstDay_bounds (guess - 1)
    rw [Int.sub_add_cancel]
    omega
  · split
    · omega
    · have := firstDay_bounds (guess + 1 + 1)
      omega

theorem monthOf_mono {a b : Int} (h : a ≤ b) : monthOf a ≤ monthOf b := by
  have ha := (monthOf_spec a).1
  have hb := (monthOf_spec b).2
  have : monthOf a < monthOf b + 1 := firstDay_lt_iff.1 (by omega)
  omega

-- November 2026 began 20758 days after 1970
example : firstDay (12 * 2026 + 10) = 20758 ∧ monthOf 20787 = 12 * 2026 + 10 := by decide

end Calendar
