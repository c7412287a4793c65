import Mclog.FixedOffset
import Mclog.General.Extraction
import Mclog.MessageFilter

/-!
# The text form of messages

`operator<<` and `operator>>` of a timestamp, of the parts of a message and of a message.  The local
time is a fixed number of seconds ahead of UTC.  `operator<<` of a message is `LogFile.messageText`;
the timestamp in it is `Timestamp.text`.
-/

namespace Mclog

open General Extractor

/-- `std::isspace` in the "C" locale. -/
def isspace (c : UInt8) : Bool := c == 32 || (9 ≤ c && c ≤ 13)

/-- The byte of `'+'`. -/
def plus : UInt8 := 43

/-- The byte of `':'`. -/
def colon : UInt8 := 58

/-- The byte of `'['`. -/
def bracketOpen : UInt8 := 91

/-- The byte of `']'`. -/
def bracketClose : UInt8 := 93

/-! ### Timestamps -/

/-- `std::setw` with the fill character `'0'`, and `%02d` and its like. -/
def padded (width n : Nat) : Str := List.replicate (width - (decimal n).length) 48 ++ decimal n

/-- `%z`. -/
def zoneText (gmtoff : Int) : Str :=
  let mins := gmtoff.natAbs / 60
  (if gmtoff < 0 then hyphen else plus) :: padded 4 (mins / 60 * 100 + mins % 60)

namespace Timestamp

/-- `Secs`. -/
def secs (ts : Timestamp) : Nat := ts.usecs.toNat / 1000000

/-- `Usecs`, what is left of the microseconds. -/
def fraction (ts : Timestamp) : Nat := ts.usecs.toNat % 1000000

/-- `operator<<`: `strftime` with `"%Y-%m-%d %H:%M:%S"` of the local time, the microseconds, and
    `strftime` with `"%z"`. -/
def text (gmtoff : Int) (ts : Timestamp) : Str :=
  let ltm := (Calendar.fixedOffset gmtoff).localtime ts.secs
  decimal (ltm.tm_year + 1900).toNat ++ hyphen :: (padded 2 (ltm.tm_mon + 1).toNat ++ hyphen ::
    (padded 2 ltm.tm_mday.toNat ++ 32 :: (padded 2 ltm.tm_hour.toNat ++ colon ::
      (padded 2 ltm.tm_min.toNat ++ colon :: (padded 2 ltm.tm_sec.toNat ++ dot ::
        (padded 6 ts.fraction ++ zoneText gmtoff))))))

end Timestamp

/-- The number that digits stand for. -/
def numeral (digits : Str) : Nat := digits.foldl (fun num c => 10 * num + (c.toNat - 48)) 0

/-- `%d` and `%u` of `sscanf` with a width: white space is skipped, and a sign counts. -/
def scanInt (width : Nat) (s : Str) : Option (Int × Str) :=
  let s := s.dropWhile isspace
  let signed := s.head? = some hyphen ∨ s.head? = some plus
  let body := if signed then s.tail else s
  let digits := (body.take (if signed then width - 1 else width)).takeWhile isdigit
  if digits = [] then
    none
  else
    some (if s.head? = some hyphen then -numeral digits else numeral digits,
      body.drop digits.length)

/-- A character of the format of `sscanf`. -/
def scanLiteral (c : UInt8) (s : Str) : Option Str :=
  if s.head? = some c then some s.tail else none

/-- What `sscanf` reads with `"%04d-%02d-%02d %02d:%02d:%02d.%06u%c%02u%02u"`. -/
structure TimestampFields where
  tms : Tm
  usecs : UInt32
  offsign : UInt8
  offhours : UInt32
  offmins : UInt32

/-- That call of `sscanf`, when it makes all ten conversions. -/
def scanTimestamp (s : Str) : Option TimestampFields := do
  let (year, s) ← scanInt 4 s
  let s ← scanLiteral hyphen s
  let (mon, s) ← scanInt 2 s
  let s ← scanLiteral hyphen s
  let (mday, s) ← scanInt 2 s
  let s := s.dropWhile isspace
  let (hour, s) ← scanInt 2 s
  let s ← scanLiteral colon s
  let (min, s) ← scanInt 2 s
  let s ← scanLiteral colon s
  let (sec, s) ← scanInt 2 s
  let s ← scanLiteral dot s
  let (usecs, s) ← scanInt 6 s
  let offsign ← s.head?
  let (offhours, s) ← scanInt 2 s.tail
  let (offmins, _) ← scanInt 2 s
  pure
    { tms := ⟨sec, min, hour, mday, mon, year, 0⟩
      usecs := .ofInt usecs
      offsign
      offhours := .ofInt offhours
      offmins := .ofInt offmins }

/-- `IsNormal`. -/
def isNormal (tm : Tm) (offhours offmins : UInt32) : Bool :=
  tm.tm_mon ≥ 0 && tm.tm_mon < 12 && (tm.tm_mday > 0 && tm.tm_mday < 32) &&
    (tm.tm_hour ≥ 0 && tm.tm_hour < 24) && (tm.tm_min ≥ 0 && tm.tm_min < 60) &&
    (tm.tm_sec ≥ 0 && tm.tm_sec < 60) && (offhours < 24 && offmins < 60)

namespace TimestampFields

variable (f : TimestampFields)

/-- The fields of `struct tm` that `timegm` gets. -/
def civil : Tm :=
  { f.tms with tm_mon := f.tms.tm_mon - 1, tm_year := f.tms.tm_year - 1900, tm_isdst := -1 }

/-- `offsecs`, with its sign. -/
def offsecs : Int :=
  let offsecs : Int := f.offhours.toNat * 3600 + f.offmins.toNat * 60
  if f.offsign = hyphen then -offsecs else offsecs

end TimestampFields

/-- `ToMicroseconds`.  The product and the sum are unsigned. -/
def toMicroseconds (s : Str) : UInt64 :=
  match scanTimestamp s with
  | some f =>
    if isNormal f.civil f.offhours f.offmins then
      if f.offsign = hyphen ∨ f.offsign = plus then
        .ofInt (f.civil.timegm - f.offsecs) * 1000000 + f.usecs.toUInt64
      else
        0
    else
      0
  | none => 0

/-- `operator>>` of a timestamp: the buffer is read as a C string. -/
def Timestamp.extract : Extractor UInt8 Timestamp := do
  let buf ← exactly 31
  let usecs := toMicroseconds (buf.takeWhile fun c => c ≠ 0)
  if usecs = 0 then fail else pure ⟨usecs⟩

/-! ### Messages -/

/-- `operator>>` of a facility. -/
def Facility.extract : Extractor UInt8 Facility := do
  let s ← word isspace
  pure (facilityValue s)

/-- The table in `operator>>` of a severity. -/
def severities : List (Str × Severity) :=
  [(str "[M]", .emerg), (str "[A]", .alert), (str "[C]", .crit), (str "[E]", .err),
   (str "[W]", .warning), (str "[N]", .notice), (str "[I]", .info), (str "[D]", .debug)]

/-- `operator>>` of a severity. -/
def Severity.extract : Extractor UInt8 Severity := do
  let s ← word isspace
  match severities.find? fun p => p.1 = s with
  | some p => pure p.2
  | none => fail

/-- `stoul`: white space is skipped, a sign is read, and what follows the digits is ignored; `none` is
    an exception.  A negative number is taken modulo 2^64. -/
def stoul (s : Str) : Option Nat :=
  let s := s.dropWhile isspace
  let body := if s.head? = some hyphen ∨ s.head? = some plus then s.tail else s
  let num := numeral (body.takeWhile isdigit)
  if body.takeWhile isdigit ≠ [] ∧ num < 2 ^ 64 then
    some (if s.head? = some hyphen then (2 ^ 64 - num) % 2 ^ 64 else num)
  else
    none

/-- `operator>>` of an origin, up to the conversion of the process id: the hostname, the appname and
    what is between the brackets. -/
def MessageOrigin.scan : Extractor UInt8 (ShortString 255 × ShortString 255 × Str) := do
  let hn ← word isspace
  let procInfo ← word isspace
  if hhn : hn.length ≤ 255 then
    match procInfo.findIdx? fun c => c = bracketOpen with
    | some aidx =>
      if haidx : aidx < 255 then
        match procInfo.findIdx? fun c => c = bracketClose with
        | some pidx =>
          if pidx > aidx + 1 then
            have hlength : (procInfo.take aidx).length ≤ 255 :=
              (List.length_take_le _ _).trans haidx.le
            pure (⟨hn, hhn⟩, ⟨procInfo.take aidx, hlength⟩,
              (procInfo.drop (aidx + 1)).take (pidx - (aidx + 1)))
          else
            fail
        | none => fail
      else
        fail
    | none => fail
  else
    fail

/-- `operator>>` of an origin.  The process id has 32 bits. -/
def MessageOrigin.extract : Extractor UInt8 MessageOrigin := do
  let (hostname, appname, digits) ← MessageOrigin.scan
  match stoul digits with
  | some num => pure ⟨hostname, appname, .ofNat num⟩
  | none => throw

/-- `operator>>` of a header. -/
def MessageHeader.extract : Extractor UInt8 MessageHeader := do
  let timestamp ← Timestamp.extract
  let facility ← Facility.extract
  let origin ← MessageOrigin.extract
  let severity ← Severity.extract
  pure ⟨timestamp, facility, severity, origin⟩

/-- `operator>>` of a message. -/
def Message.extract : Extractor UInt8 Message := do
  let header ← MessageHeader.extract
  ws isspace
  let s ← line 10
  if hs : s.length ≤ 1500 then pure ⟨header, ⟨s, hs⟩⟩ else fail

/-- The host, where the local time is `gmtoff` seconds ahead of UTC. -/
def Platform.atOffset (plat : Platform) (gmtoff : Int) : Platform :=
  { plat with calendar := .fixedOffset gmtoff, timestampText := Timestamp.text gmtoff }

end Mclog
