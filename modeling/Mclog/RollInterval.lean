import Mclog.Config

/-!
# Roll intervals

`RollInterval` knows when the current interval ends: at the next multiple of the period, counted in
the local time of its field.  `localtime_r` and `mktime` are the C library's, a parameter here.
-/

namespace Mclog

/-- `struct tm`, the fields that a local time has. -/
structure Tm where
  tm_sec : Int
  tm_min : Int
  tm_hour : Int
  tm_mday : Int
  tm_mon : Int
  tm_year : Int
  tm_isdst : Int
deriving DecidableEq

/-- `localtime_r` and `mktime`. -/
structure Calendar where
  localtime : Int → Tm
  mktime : Tm → Int

/-- The fields that are incremented. -/
inductive TmField where
  | tm_min
  | tm_hour
  | tm_mday
deriving DecidableEq

/-- The value of a field. -/
def Tm.get (tms : Tm) : TmField → Int
  | .tm_min => tms.tm_min
  | .tm_hour => tms.tm_hour
  | .tm_mday => tms.tm_mday

/-- A field set to the mark, and the fields below it to 0. -/
def Tm.setMark (tms : Tm) (mark : Int) : TmField → Tm
  | .tm_min => { tms with tm_min := mark, tm_sec := 0 }
  | .tm_hour => { tms with tm_hour := mark, tm_min := 0, tm_sec := 0 }
  | .tm_mday => { tms with tm_mday := mark, tm_hour := 0, tm_min := 0, tm_sec := 0 }

/-- How a period is counted. -/
structure IncrementInfo where
  rp : RollPeriod
  field : TmField
  amount : Nat
  secs : Int

/-- `g_incrementInfo`. -/
def g_incrementInfo : List IncrementInfo :=
  [⟨.minutes_5, .tm_min, 5, 300⟩,
   ⟨.minutes_15, .tm_min, 15, 900⟩,
   ⟨.minutes_30, .tm_min, 30, 1800⟩,
   ⟨.hours_1, .tm_hour, 1, 3600⟩,
   ⟨.hours_2, .tm_hour, 2, 7200⟩,
   ⟨.hours_4, .tm_hour, 4, 14400⟩,
   ⟨.hours_6, .tm_hour, 6, 21600⟩,
   ⟨.hours_8, .tm_hour, 8, 28800⟩,
   ⟨.hours_12, .tm_hour, 12, 43200⟩,
   ⟨.days_1, .tm_mday, 1, 86400⟩,
   ⟨.days_7, .tm_mday, 7, 604800⟩]

/-- `FieldToIncrement`. -/
def fieldToIncrement (rp : RollPeriod) : TmField :=
  match g_incrementInfo.find? fun incInfo => incInfo.rp = rp with
  | some incInfo => incInfo.field
  | none => .tm_mday

/-- `IncrementAmount`. -/
def incrementAmount (rp : RollPeriod) : Nat :=
  match g_incrementInfo.find? fun incInfo => incInfo.rp = rp with
  | some incInfo => incInfo.amount
  | none => 1

/-- `IncrementSeconds`. -/
def incrementSeconds (rp : RollPeriod) : Int :=
  match g_incrementInfo.find? fun incInfo => incInfo.rp = rp with
  | some incInfo => incInfo.secs
  | none => 1

/-- The loop of `NextMark`, at most `fuel` times around. -/
def raiseMark (amount : Nat) (field : Int) : Nat → Int → Int
  | 0, mark => mark
  | fuel + 1, mark => if mark ≤ field then raiseMark amount field fuel (mark + amount) else mark

/-- `NextMark`, with the reading of the clock.  The loop starts from 0 and ends above the field. -/
def nextMark (calendar : Calendar) (rp : RollPeriod) (t : Int) : Int :=
  let tms := calendar.localtime t
  let field := fieldToIncrement rp
  let mark := raiseMark (incrementAmount rp) (tms.get field) (tms.get field + 1).toNat 0
  calendar.mktime (tms.setMark mark field)

/-- Every period advances the mark. -/
theorem incrementAmount_pos (rp : RollPeriod) : 0 < incrementAmount rp := by
  cases rp <;> decide

/-- `RollInterval`. -/
structure RollInterval where
  rp : RollPeriod
  endTime : Int
deriving DecidableEq

namespace RollInterval

/-- The constructor, with the reading of the clock. -/
def of (calendar : Calendar) (rp : RollPeriod) (t : Int) : RollInterval :=
  ⟨rp, nextMark calendar rp t⟩

/-- `SetToCurrent`, with the reading of the clock. -/
def setToCurrent (calendar : Calendar) (ri : RollInterval) (t : Int) : RollInterval :=
  { ri with endTime := nextMark calendar ri.rp t }

/-- `StartTime`. -/
def startTime (ri : RollInterval) : Int := ri.endTime - incrementSeconds ri.rp

end RollInterval

end Mclog
