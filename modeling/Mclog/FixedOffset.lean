import Mclog.General.Gregorian
import Mclog.RollInterval

/-!
# Local time at a fixed offset

The C library's `localtime_r`, `mktime` and `timegm` where the local time is a fixed number of
seconds ahead of UTC.  `mktime` takes fields out of their ranges as what they come to in the
proleptic Gregorian calendar.
-/

namespace Mclog

open General

namespace Tm

/-- The month, counted from the first of year 0. -/
def month (tms : Tm) : Int := 12 * (tms.tm_year + 1900) + tms.tm_mon

/-- `timegm`: the fields as a time in UTC. -/
def timegm (tms : Tm) : Int :=
  86400 * (Gregorian.monthStart tms.month + (tms.tm_mday - 1)) + 3600 * tms.tm_hour +
    60 * tms.tm_min + tms.tm_sec

/-- `gmtime_r`. -/
def gmtime (t : Int) : Tm where
  tm_sec := t % 60
  tm_min := t / 60 % 60
  tm_hour := t / 3600 % 24
  tm_mday := Gregorian.dayOf (t / 86400)
  tm_mon := Gregorian.monthOf (t / 86400) % 12
  tm_year := Gregorian.monthOf (t / 86400) / 12 - 1900
  tm_isdst := 0

theorem month_gmtime (t : Int) : (gmtime t).month = Gregorian.monthOf (t / 86400) := by
  simp only [month, gmtime]
  omega

/-- The fields of a time come to that time. -/
theorem timegm_gmtime (t : Int) : (gmtime t).timegm = t := by
  have hday := Gregorian.monthStart_add_dayOf (t / 86400)
  unfold timegm
  rw [month_gmtime]
  show 86400 * (Gregorian.monthStart _ + (Gregorian.dayOf (t / 86400) - 1)) +
    3600 * (t / 3600 % 24) + 60 * (t / 60 % 60) + t % 60 = t
  rw [hday]
  omega

/-- The fields of a civil time: they are in their ranges, and the month has that day. -/
structure Civil (tms : Tm) : Prop where
  sec : 0 ≤ tms.tm_sec ∧ tms.tm_sec < 60
  min : 0 ≤ tms.tm_min ∧ tms.tm_min < 60
  hour : 0 ≤ tms.tm_hour ∧ tms.tm_hour < 24
  mday : 1 ≤ tms.tm_mday ∧ tms.tm_mday ≤ Gregorian.monthLength tms.month
  mon : 0 ≤ tms.tm_mon ∧ tms.tm_mon < 12

theorem civil_gmtime (t : Int) : (gmtime t).Civil := by
  have hday := Gregorian.dayOf_bounds (t / 86400)
  refine ⟨?_, ?_, ?_, ?_, ?_⟩
  · show 0 ≤ t % 60 ∧ t % 60 < 60
    omega
  · show 0 ≤ t / 60 % 60 ∧ t / 60 % 60 < 60
    omega
  · show 0 ≤ t / 3600 % 24 ∧ t / 3600 % 24 < 24
    omega
  · rw [month_gmtime]
    exact hday
  · show 0 ≤ Gregorian.monthOf (t / 86400) % 12 ∧ Gregorian.monthOf (t / 86400) % 12 < 12
    omega

/-- A civil time is the local time of what it comes to. -/
theorem gmtime_timegm {tms : Tm} (h : tms.Civil) :
    gmtime tms.timegm = { tms with tm_isdst := 0 } := by
  obtain ⟨hsec, hmin, hhour, hmday, hmon⟩ := h
  have hlength : Gregorian.monthLength tms.month =
      Gregorian.monthStart (tms.month + 1) - Gregorian.monthStart tms.month := rfl
  have hdays : tms.timegm / 86400 = Gregorian.monthStart tms.month + (tms.tm_mday - 1) := by
    unfold timegm
    omega
  have hmonthOf : Gregorian.monthOf (tms.timegm / 86400) = tms.month := by
    rw [Gregorian.monthOf_eq_iff, hdays]
    omega
  have hdayOf : Gregorian.dayOf (tms.timegm / 86400) = tms.tm_mday := by
    unfold Gregorian.dayOf
    rw [hmonthOf, hdays]
    omega
  have hseconds : tms.timegm = 86400 * (tms.timegm / 86400) + 3600 * tms.tm_hour +
      60 * tms.tm_min + tms.tm_sec := by
    rw [hdays]
    rfl
  have hmonth : tms.month = 12 * (tms.tm_year + 1900) + tms.tm_mon := rfl
  unfold gmtime
  rw [hmonthOf, hdayOf, Tm.mk.injEq]
  refine ⟨?_, ?_, ?_, rfl, ?_, ?_, rfl⟩ <;> omega

end Tm

/-- The local time is `gmtoff` seconds ahead of UTC. -/
def Calendar.fixedOffset (gmtoff : Int) : Calendar where
  localtime t := Tm.gmtime (t + gmtoff)
  mktime tms := tms.timegm - gmtoff

end Mclog
