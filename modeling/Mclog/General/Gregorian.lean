import Mathlib.Order.Monotone.Basic
import Mathlib.Tactic

/-!
# The proleptic Gregorian calendar

Days and months are numbered: day 0 is 1970-01-01, and month `12 * y + k` is the `k`-th month of
year `y`, counted from 0.  `monthStart` is the first day of a month.  It counts the years from March
on, so that the leap day is the last of a year, and has no table of month lengths; that the lengths
are the usual ones is `monthLength_eq`.  `monthOf` is its inverse: the month of a day is estimated
from the mean length of a month, which no month start is far from, and then corrected by at most one
(`monthOf_spec`).
-/

namespace General.Gregorian

/-! ### Months -/

/-- The first day of a month. -/
def monthStart (m : Int) : Int :=
  let y := (m - 2) / 12
  let k := (m - 2) % 12
  365 * y + y / 4 - y / 100 + y / 400 + (153 * k + 2) / 5 - 719468

/-- The number of days of a month. -/
def monthLength (m : Int) : Int := monthStart (m + 1) - monthStart m

/-- A leap year. -/
def IsLeap (y : Int) : Prop := y % 4 = 0 ∧ (y % 100 ≠ 0 ∨ y % 400 = 0)

instance (y : Int) : Decidable (IsLeap y) :=
  inferInstanceAs (Decidable (y % 4 = 0 ∧ (y % 100 ≠ 0 ∨ y % 400 = 0)))

/-- A month and the next are in one year counted from March, or a new one begins. -/
theorem march_cases (m : Int) :
    ((m - 2) % 12 = 11 ∧ (m + 1 - 2) / 12 = (m - 2) / 12 + 1 ∧ (m + 1 - 2) % 12 = 0) ∨
      ((m - 2) % 12 < 11 ∧ (m + 1 - 2) / 12 = (m - 2) / 12 ∧
        (m + 1 - 2) % 12 = (m - 2) % 12 + 1) := by
  omega

/-- Months have 28 to 31 days. -/
theorem monthLength_bounds (m : Int) : 28 ≤ monthLength m ∧ monthLength m ≤ 31 := by
  unfold monthLength monthStart
  dsimp only
  rcases march_cases m with ⟨hk, hy, hk'⟩ | ⟨hk, hy, hk'⟩
  · rw [hy, hk', hk]
    omega
  · rw [hy, hk']
    omega

/-- **The lengths of the months** are those of the Gregorian calendar. -/
theorem monthLength_eq (m : Int) :
    monthLength m =
      if m % 12 = 1 then if IsLeap (m / 12) then 29 else 28
      else if m % 12 = 3 ∨ m % 12 = 5 ∨ m % 12 = 8 ∨ m % 12 = 10 then 30
      else 31 := by
  have hlo : 0 ≤ m % 12 := by omega
  have hhi : m % 12 < 12 := by omega
  unfold monthLength monthStart
  dsimp only
  by_cases hfeb : m % 12 = 1
  · -- February is the last month of the year counted from March.
    have hy : (m + 1 - 2) / 12 = m / 12 := by omega
    have hk : (m + 1 - 2) % 12 = 0 := by omega
    have hy' : (m - 2) / 12 = m / 12 - 1 := by omega
    have hk' : (m - 2) % 12 = 11 := by omega
    rw [if_pos hfeb, hy, hk, hy', hk']
    unfold IsLeap
    split_ifs with hleap <;> omega
  · rw [if_neg hfeb]
    generalize hk : m % 12 = k at *
    interval_cases k <;> simp <;> omega

theorem monthStart_strictMono : StrictMono monthStart := by
  apply strictMono_int_of_lt_succ
  intro m
  have := (monthLength_bounds m).1
  unfold monthLength at this
  omega

/-- The months are 146097 / 4800 days long in the mean, and none starts far from where this puts
    it. -/
theorem monthStart_mean (m : Int) :
    146097 * (m - 2) - 12000 ≤ 4800 * (monthStart m + 719468) ∧
      4800 * (monthStart m + 719468) ≤ 146097 * (m - 2) + 17000 := by
  unfold monthStart
  dsimp only
  omega

/-! ### Days -/

/-- The month of a day. -/
def monthOf (d : Int) : Int :=
  let m := 4800 * (d + 719468) / 146097 + 2
  if d < monthStart m then m - 1
  else if monthStart (m + 1) ≤ d then m + 1
  else m

/-- The day of the month, counted from 1. -/
def dayOf (d : Int) : Int := d - monthStart (monthOf d) + 1

/-- A day is in its month. -/
theorem monthOf_spec (d : Int) :
    monthStart (monthOf d) ≤ d ∧ d < monthStart (monthOf d + 1) := by
  unfold monthOf
  dsimp only
  generalize hm : 4800 * (d + 719468) / 146097 + 2 = m
  -- The months two away from the estimate are too far away.
  have hlo := monthStart_mean (m - 1)
  have hhi := monthStart_mean (m + 1 + 1)
  split_ifs with h h'
  · rw [sub_add_cancel]
    omega
  · omega
  · omega

theorem monthOf_eq_iff {d m : Int} :
    monthOf d = m ↔ monthStart m ≤ d ∧ d < monthStart (m + 1) := by
  obtain ⟨hlo, hhi⟩ := monthOf_spec d
  constructor
  · rintro rfl
    exact ⟨hlo, hhi⟩
  · rintro ⟨hlo', hhi'⟩
    have hle : monthOf d < m + 1 := monthStart_strictMono.lt_iff_lt.mp (lt_of_le_of_lt hlo hhi')
    have hge : m < monthOf d + 1 := monthStart_strictMono.lt_iff_lt.mp (lt_of_le_of_lt hlo' hhi)
    omega

theorem monthOf_mono : Monotone monthOf := by
  intro d d' h
  have hlt : monthOf d < monthOf d' + 1 := by
    apply monthStart_strictMono.lt_iff_lt.mp
    have := (monthOf_spec d).1
    have := (monthOf_spec d').2
    omega
  omega

theorem dayOf_bounds (d : Int) : 1 ≤ dayOf d ∧ dayOf d ≤ monthLength (monthOf d) := by
  have := monthOf_spec d
  unfold dayOf monthLength
  omega

/-- A day from its month and its day of the month. -/
theorem monthStart_add_dayOf (d : Int) : monthStart (monthOf d) + (dayOf d - 1) = d := by
  unfold dayOf
  omega

/-- 29 February 2024. -/
example : (monthOf 19782, dayOf 19782) = (12 * 2024 + 1, 29) := by decide

end General.Gregorian
