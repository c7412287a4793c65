import Mclog.Equiv.LogFile
import Mclog.FixedOffset

/-!
# What roll intervals cover

At a fixed offset from UTC, `nextMark` is the next multiple of the period after the local time for
every period but that of seven days (`nextMark_eq`), which counts the days of the month, in sevens
from its last before the first (`nextMark_days_7`).  Every interval spans the time it is computed at
(`spans_current`).  The intervals of the other periods partition time; those of seven days do not,
as the one that begins on day 28 goes on into the next month, where the first one begins anew
(`partition_iff`).
-/

namespace Mclog

open General

/-! ### The next mark -/

/-- From a multiple that is not past the next one above the field, the loop of `NextMark` gets
    there. -/
theorem raiseMark_eq {amount : Int} (hamount : 0 < amount) (field : Int) (fuel : Nat) (n : Int)
    (hn : n ≤ field / amount + 1) (hfuel : field / amount + 1 ≤ n + fuel) :
    raiseMark amount.toNat field fuel (amount * n) = amount * (field / amount + 1) := by
  have hcast : ((amount.toNat : Nat) : Int) = amount := Int.toNat_of_nonneg hamount.le
  induction fuel generalizing n with
  | zero =>
    obtain rfl : n = field / amount + 1 := by
      push_cast at hfuel
      omega
    rfl
  | succ fuel ih =>
    have hle : amount * n ≤ field ↔ n ≤ field / amount := by
      rw [Int.le_ediv_iff_mul_le hamount, mul_comm]
    unfold raiseMark
    split_ifs with hmark
    · rw [hle] at hmark
      rw [hcast, ← mul_add_one]
      apply ih
      · omega
      · push_cast at hfuel
        omega
    · rw [hle] at hmark
      obtain rfl : n = field / amount + 1 := by omega
      rfl

/-- `NextMark` sets the field to the least multiple of the amount above it. -/
theorem nextMark_fixedOffset (gmtoff : Int) (rp : RollPeriod) (t : Int)
    (hfield : 0 ≤ (Tm.gmtime (t + gmtoff)).get (fieldToIncrement rp)) :
    nextMark (.fixedOffset gmtoff) rp t =
      ((Tm.gmtime (t + gmtoff)).setMark
        (incrementAmount rp *
          ((Tm.gmtime (t + gmtoff)).get (fieldToIncrement rp) / incrementAmount rp + 1))
        (fieldToIncrement rp)).timegm - gmtoff := by
  have hamount : (0 : Int) < incrementAmount rp := by exact_mod_cast incrementAmount_pos rp
  unfold nextMark
  dsimp only [Calendar.fixedOffset]
  generalize (Tm.gmtime (t + gmtoff)).get (fieldToIncrement rp) = field at hfield ⊢
  have hdiv : field / incrementAmount rp ≤ field := Int.ediv_le_self _ hfield
  have hnonneg : 0 ≤ field / incrementAmount rp := Int.ediv_nonneg hfield hamount.le
  have hmark := raiseMark_eq hamount field (field + 1).toNat 0 (by omega) (by omega)
  rw [Int.toNat_natCast, mul_zero] at hmark
  rw [hmark]

theorem gmtime_get_nonneg (t : Int) (field : TmField) : 0 ≤ (Tm.gmtime t).get field := by
  cases field with
  | tm_min =>
    show 0 ≤ t / 60 % 60
    omega
  | tm_hour =>
    show 0 ≤ t / 3600 % 24
    omega
  | tm_mday =>
    show 0 ≤ Gregorian.dayOf (t / 86400)
    have := (Gregorian.dayOf_bounds (t / 86400)).1
    omega

/-- The time of a mark: the fields below it are 0, and those above it are kept. -/
theorem timegm_setMark (t mark : Int) (field : TmField) :
    ((Tm.gmtime t).setMark mark field).timegm =
      match field with
      | .tm_min => 3600 * (t / 3600) + 60 * mark
      | .tm_hour => 86400 * (t / 86400) + 3600 * mark
      | .tm_mday =>
        86400 * (Gregorian.monthStart (Gregorian.monthOf (t / 86400)) + (mark - 1)) := by
  have hday := Gregorian.monthStart_add_dayOf (t / 86400)
  have hmonth := Tm.month_gmtime t
  cases field with
  | tm_min =>
    show 86400 * (Gregorian.monthStart (Tm.gmtime t).month + (Gregorian.dayOf (t / 86400) - 1)) +
      3600 * (t / 3600 % 24) + 60 * mark + 0 = 3600 * (t / 3600) + 60 * mark
    rw [hmonth, hday]
    omega
  | tm_hour =>
    show 86400 * (Gregorian.monthStart (Tm.gmtime t).month + (Gregorian.dayOf (t / 86400) - 1)) +
      3600 * mark + 60 * 0 + 0 = 86400 * (t / 86400) + 3600 * mark
    rw [hmonth, hday]
    omega
  | tm_mday =>
    show 86400 * (Gregorian.monthStart (Tm.gmtime t).month + (mark - 1)) + 3600 * 0 + 60 * 0 + 0 =
      86400 * (Gregorian.monthStart (Gregorian.monthOf (t / 86400)) + (mark - 1))
    rw [hmonth]
    omega

/-- Rounding up within a cycle of `c` units is rounding up, if the amount divides the cycle. -/
theorem cycle_add_mark {a c : Int} (hpos : 0 < c) (hdvd : a ∣ c) (u : Int) (hu : 0 ≤ u) (t : Int) :
    u * c * (t / (u * c)) + u * (a * (t / u % c / a + 1)) = u * a * (t / (u * a) + 1) := by
  obtain ⟨b, rfl⟩ := hdvd
  have ha : a ≠ 0 := by
    rintro rfl
    simp at hpos
  rw [← Int.ediv_ediv_of_nonneg hu, ← Int.ediv_ediv_of_nonneg hu]
  generalize t / u = x
  have hsplit : x / a = b * (x / (a * b)) + x % (a * b) / a := by
    conv_lhs => rw [← Int.mul_ediv_add_emod x (a * b), mul_assoc, Int.add_comm]
    rw [Int.add_mul_ediv_left _ _ ha, Int.add_comm]
  rw [hsplit]
  ring

/-- The seconds of a period of at most a day, and how its amount divides the field's cycle. -/
theorem incrementSeconds_cases {rp : RollPeriod} (hrp : rp ≠ .days_7) :
    (fieldToIncrement rp = .tm_min ∧ incrementSeconds rp = 60 * incrementAmount rp ∧
        (incrementAmount rp : Int) ∣ 60) ∨
      (fieldToIncrement rp = .tm_hour ∧ incrementSeconds rp = 3600 * incrementAmount rp ∧
        (incrementAmount rp : Int) ∣ 24) ∨
      (fieldToIncrement rp = .tm_mday ∧ incrementSeconds rp = 86400 ∧
        (incrementAmount rp : Int) = 1) := by
  cases rp
  case days_7 => exact absurd rfl hrp
  all_goals decide

/-- For a period of at most a day the marks are the multiples of the period in local time. -/
theorem nextMark_eq (gmtoff : Int) {rp : RollPeriod} (hrp : rp ≠ .days_7) (t : Int) :
    nextMark (.fixedOffset gmtoff) rp t =
      incrementSeconds rp * ((t + gmtoff) / incrementSeconds rp + 1) - gmtoff := by
  rw [nextMark_fixedOffset _ _ _ (gmtime_get_nonneg _ _), timegm_setMark]
  generalize t + gmtoff = l
  rcases incrementSeconds_cases hrp with ⟨hfield, hseconds, hdvd⟩ | ⟨hfield, hseconds, hdvd⟩ |
    ⟨hfield, hseconds, hamount⟩
  · have hmark := cycle_add_mark (by norm_num) hdvd 60 (by norm_num) l
    rw [hfield, hseconds, ← hmark]
    rfl
  · have hmark := cycle_add_mark (by norm_num) hdvd 3600 (by norm_num) l
    rw [hfield, hseconds, ← hmark]
    rfl
  · have hday := Gregorian.monthStart_add_dayOf (l / 86400)
    rw [hfield, hseconds, hamount]
    show 86400 * (_ + (1 * (Gregorian.dayOf (l / 86400) / 1 + 1) - 1)) - gmtoff = _
    rw [Int.ediv_one]
    omega

/-- The day before the first day of the month, or the last seventh day after it, up to a day. -/
def weekStart (d : Int) : Int :=
  Gregorian.monthStart (Gregorian.monthOf d) - 1 + 7 * (Gregorian.dayOf d / 7)

/-- The marks of seven days are seven, fourteen and so on after the last day of the month before. -/
theorem nextMark_days_7 (gmtoff t : Int) :
    nextMark (.fixedOffset gmtoff) .days_7 t =
      86400 * (weekStart ((t + gmtoff) / 86400) + 7) - gmtoff := by
  rw [nextMark_fixedOffset _ _ _ (gmtime_get_nonneg _ _), timegm_setMark]
  show 86400 * (_ + (7 * (Gregorian.dayOf _ / 7 + 1) - 1)) - gmtoff = _
  unfold weekStart
  omega

theorem incrementSeconds_pos (rp : RollPeriod) : 0 < incrementSeconds rp := by
  cases rp <;> decide

/-! ### The interval of the current time -/

/-- The interval contains a time. -/
def RollInterval.Spans (ri : RollInterval) (t : Int) : Prop := ri.startTime ≤ t ∧ t < ri.endTime

/-- The next mark is above the time, and the one before it is not. -/
theorem nextMark_spans (gmtoff : Int) (rp : RollPeriod) (t : Int) :
    nextMark (.fixedOffset gmtoff) rp t - incrementSeconds rp ≤ t ∧
      t < nextMark (.fixedOffset gmtoff) rp t := by
  by_cases hrp : rp = .days_7
  · subst hrp
    have hday := Gregorian.monthStart_add_dayOf ((t + gmtoff) / 86400)
    have hsecs : incrementSeconds .days_7 = 604800 := by decide
    rw [nextMark_days_7, hsecs]
    unfold weekStart
    omega
  · rw [nextMark_eq gmtoff hrp]
    have hpos := incrementSeconds_pos rp
    have hdiv := Int.mul_ediv_add_emod (t + gmtoff) (incrementSeconds rp)
    have hmod := Int.emod_nonneg (t + gmtoff) hpos.ne'
    have hlt := Int.emod_lt_of_pos (t + gmtoff) hpos
    rw [mul_add_one]
    omega

/-- **An interval set to the current time spans it**, when it is constructed and after
    `SetToCurrent`; so right after a roll only the size makes the log roll again. -/
theorem spans_current (plat : Platform) (gmtoff : Int)
    (hcalendar : plat.calendar = .fixedOffset gmtoff) (t : Int) :
    (∀ rp, (RollInterval.of plat.calendar rp t).Spans t) ∧
      (∀ ri : RollInterval, (ri.setToCurrent plat.calendar t).Spans t) ∧
      ∀ (env : Env) (lf : LogFile) (w : World), env.rollTime = t →
        (lf.roll plat env w).1 = true → ∀ (env' : Env) (msg : Message), env'.time = t →
          let lf' := (lf.roll plat env w).2.1
          lf'.rollCriteriaMet env' msg =
            decide (lf'.rollSize > 0 ∧ lf'.ofs.isSome ∧ env'.tellp ≥ lf'.rollSize) := by
  have hspans : ∀ rp, (RollInterval.of plat.calendar rp t).Spans t := by
    intro rp
    rw [hcalendar]
    exact nextMark_spans gmtoff rp t
  refine ⟨hspans, fun ri => hspans ri.rp, ?_⟩
  intro env lf w htime hroll env' msg htime' lf'
  have hinterval : lf'.rollInterval = lf.rollInterval.setToCurrent plat.calendar t := by
    rw [← htime]
    unfold lf' LogFile.roll at *
    dsimp only at *
    split_ifs at hroll ⊢
    rfl
  have hend : t < lf'.rollInterval.endTime := by
    rw [hinterval]
    exact (hspans lf.rollInterval.rp).2
  have hearly : ¬ t ≥ lf'.rollInterval.endTime := by omega
  unfold LogFile.rollCriteriaMet
  split_ifs with hsize hlate
  · simp [hsize]
  · simp [hsize, htime', hearly]
  · simp [hsize]

/-- A platform an hour ahead of UTC. -/
def hourAhead : Platform := { LogFile.plainPlatform with calendar := .fixedOffset 3600 }

/-- What there is when `/log/app` has just been created. -/
def newLog : World := { disk := LogFile.emptyDisk.create [str "log", str "app"] ⟨[], 0⟩ }

theorem spans_current_newLog :
    (RollInterval.of hourAhead.calendar .days_7 1769900000).Spans 1769900000 ∧
      ((LogFile.appLog.roll hourAhead { rollTime := 1769900000 } newLog).2.1.rollCriteriaMet
        { time := 1769900000 } (LogFile.messageAt 1)) = false := by
  obtain ⟨hof, -, hroll⟩ := spans_current hourAhead 3600 rfl 1769900000
  refine ⟨hof .days_7, ?_⟩
  have hcriteria := hroll { rollTime := 1769900000 } LogFile.appLog newLog rfl (by decide)
    { time := 1769900000 } (LogFile.messageAt 1) rfl
  exact hcriteria.trans (by decide)

/-! ### Whether the intervals partition time -/

/-- Two times are in the same interval, or that of the first ends before that of the second begins. -/
theorem nextMark_partition (gmtoff : Int) {rp : RollPeriod} (hrp : rp ≠ .days_7) {t₁ t₂ : Int}
    (h : t₁ ≤ t₂) :
    nextMark (.fixedOffset gmtoff) rp t₁ = nextMark (.fixedOffset gmtoff) rp t₂ ∨
      nextMark (.fixedOffset gmtoff) rp t₁ ≤
        nextMark (.fixedOffset gmtoff) rp t₂ - incrementSeconds rp := by
  rw [nextMark_eq gmtoff hrp, nextMark_eq gmtoff hrp]
  have hpos := incrementSeconds_pos rp
  have hle : (t₁ + gmtoff) / incrementSeconds rp ≤ (t₂ + gmtoff) / incrementSeconds rp :=
    Int.ediv_le_ediv hpos (by omega)
  rcases hle.eq_or_lt with hsame | hlt
  · left
    rw [hsame]
  · right
    have hmul : incrementSeconds rp * ((t₁ + gmtoff) / incrementSeconds rp + 1) ≤
        incrementSeconds rp * ((t₂ + gmtoff) / incrementSeconds rp) :=
      Int.mul_le_mul_of_nonneg_left (by omega) hpos.le
    rw [mul_add_one _ ((t₂ + gmtoff) / incrementSeconds rp)]
    omega

/-- Two times for which the interval of seven days is cut short: the first is on day 28 or later of
    a month that does not have 28 days, and the second on one of the first six days of the month
    after. -/
def CutShort (gmtoff : Int) (rp : RollPeriod) (t₁ t₂ : Int) : Prop :=
  let tms₁ := (Calendar.fixedOffset gmtoff).localtime t₁
  let tms₂ := (Calendar.fixedOffset gmtoff).localtime t₂
  rp = .days_7 ∧ 28 ≤ tms₁.tm_mday ∧ Gregorian.monthLength tms₁.month ≠ 28 ∧
    tms₂.month = tms₁.month + 1 ∧ tms₂.tm_mday < 7

theorem cutShort_days_7_iff (gmtoff t₁ t₂ : Int) :
    CutShort gmtoff .days_7 t₁ t₂ ↔
      28 ≤ Gregorian.dayOf ((t₁ + gmtoff) / 86400) ∧
        Gregorian.monthLength (Gregorian.monthOf ((t₁ + gmtoff) / 86400)) ≠ 28 ∧
        Gregorian.monthOf ((t₂ + gmtoff) / 86400) = Gregorian.monthOf ((t₁ + gmtoff) / 86400) + 1 ∧
        Gregorian.dayOf ((t₂ + gmtoff) / 86400) < 7 := by
  simp only [CutShort, Calendar.fixedOffset, Tm.month_gmtime, true_and]
  rfl

/-- **The sevens of two days** are the same, or one ends before the other begins, but for those at
    the end of a month that does not have 28 days. -/
theorem weekStart_partition_iff {d₁ d₂ : Int} (h : d₁ ≤ d₂) :
    (weekStart d₁ = weekStart d₂ ∨ weekStart d₁ + 7 ≤ weekStart d₂) ↔
      ¬ (28 ≤ Gregorian.dayOf d₁ ∧ Gregorian.monthLength (Gregorian.monthOf d₁) ≠ 28 ∧
        Gregorian.monthOf d₂ = Gregorian.monthOf d₁ + 1 ∧ Gregorian.dayOf d₂ < 7) := by
  have hmonths := Gregorian.monthOf_mono h
  have hday₁ := Gregorian.monthStart_add_dayOf d₁
  have hday₂ := Gregorian.monthStart_add_dayOf d₂
  obtain ⟨hone₁, hlast₁⟩ := Gregorian.dayOf_bounds d₁
  obtain ⟨hone₂, hlast₂⟩ := Gregorian.dayOf_bounds d₂
  obtain ⟨hmin, hmax⟩ := Gregorian.monthLength_bounds (Gregorian.monthOf d₁)
  have hlength : Gregorian.monthStart (Gregorian.monthOf d₁ + 1) =
      Gregorian.monthStart (Gregorian.monthOf d₁) +
        Gregorian.monthLength (Gregorian.monthOf d₁) := by
    unfold Gregorian.monthLength
    omega
  unfold weekStart
  rcases (by omega : Gregorian.monthOf d₂ = Gregorian.monthOf d₁ ∨
      Gregorian.monthOf d₂ = Gregorian.monthOf d₁ + 1 ∨
      Gregorian.monthOf d₁ + 1 + 1 ≤ Gregorian.monthOf d₂) with hm | hm | hm
  · -- Within a month.
    have hstart : Gregorian.monthStart (Gregorian.monthOf d₂) =
        Gregorian.monthStart (Gregorian.monthOf d₁) := by rw [hm]
    omega
  · -- From a month into the next one.
    have hstart : Gregorian.monthStart (Gregorian.monthOf d₂) =
        Gregorian.monthStart (Gregorian.monthOf d₁ + 1) := by rw [hm]
    omega
  · -- A whole month is in between, and 35 days at most are left over.
    have hnext : Gregorian.monthStart (Gregorian.monthOf d₁ + 1) + 28 ≤
        Gregorian.monthStart (Gregorian.monthOf d₁ + 1 + 1) := by
      have := (Gregorian.monthLength_bounds (Gregorian.monthOf d₁ + 1)).1
      unfold Gregorian.monthLength at this
      omega
    have hstart := Gregorian.monthStart_strictMono.monotone hm
    omega

/-- **The intervals partition time, exactly when** none of seven days is cut short by the end of a
    month. -/
theorem partition_iff (gmtoff : Int) (rp : RollPeriod) (t₁ t₂ : Int) (h : t₁ ≤ t₂) :
    (RollInterval.of (.fixedOffset gmtoff) rp t₁ = .of (.fixedOffset gmtoff) rp t₂ ∨
        (RollInterval.of (.fixedOffset gmtoff) rp t₁).endTime ≤
          (RollInterval.of (.fixedOffset gmtoff) rp t₂).startTime) ↔
      ¬ CutShort gmtoff rp t₁ t₂ := by
  simp only [RollInterval.of, RollInterval.startTime, RollInterval.mk.injEq, true_and]
  by_cases hrp : rp = .days_7
  · subst hrp
    have hsecs : incrementSeconds .days_7 = 604800 := by decide
    have hdays : (t₁ + gmtoff) / 86400 ≤ (t₂ + gmtoff) / 86400 := by omega
    rw [cutShort_days_7_iff, ← weekStart_partition_iff hdays, nextMark_days_7, nextMark_days_7, hsecs]
    omega
  · have hcut : ¬ CutShort gmtoff rp t₁ t₂ := fun hcut => hrp hcut.1
    exact iff_of_true (nextMark_partition gmtoff hrp h) hcut

theorem partition_iff_newYear :
    RollInterval.of (.fixedOffset 3600) .hours_6 1767222000 =
        .of (.fixedOffset 3600) .hours_6 1767222001 ∨
      (RollInterval.of (.fixedOffset 3600) .hours_6 1767222000).endTime ≤
        (RollInterval.of (.fixedOffset 3600) .hours_6 1767222001).startTime := by
  refine (partition_iff 3600 .hours_6 1767222000 1767222001 (by decide)).mpr ?_
  rintro ⟨hrp, -⟩
  cases hrp

/-- **An interval of seven days is cut short.**  That of 31 January 2026 ends on 4 February, and that
    of 1 February begins on 31 January. -/
theorem intervals_overlap :
    ¬ (RollInterval.of (.fixedOffset 0) .days_7 1769860800 =
          .of (.fixedOffset 0) .days_7 1769904000 ∨
        (RollInterval.of (.fixedOffset 0) .days_7 1769860800).endTime ≤
          (RollInterval.of (.fixedOffset 0) .days_7 1769904000).startTime) := by
  decide

end Mclog
