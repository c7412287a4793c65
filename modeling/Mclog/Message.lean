import Mathlib.Data.Nat.Digits.Lemmas
import Mclog.Basic
import Mclog.General.Codec

/-!
# Messages and their binary form

`Message`, its header and its origin, with `Read` and `Write` on binary streams.  A stream reader
is a function from the bytes left to the value read and the bytes left after it; `none` is the
stream's failbit.  The encodings of the primitive types are the library's `StreamIO`.
-/

namespace Mclog

open General

/-! ### Facility and severity -/

/-- `enum class Facility : uint8_t`.  Any byte can be stored in it. -/
structure Facility where
  code : UInt8
deriving DecidableEq

namespace Facility

def kernel : Facility := ⟨0⟩
def user : Facility := ⟨8⟩
def mail : Facility := ⟨16⟩
def daemon : Facility := ⟨24⟩
def auth : Facility := ⟨32⟩
def syslog : Facility := ⟨40⟩
def lpr : Facility := ⟨48⟩
def news : Facility := ⟨56⟩
def uucp : Facility := ⟨64⟩
def cron : Facility := ⟨72⟩
def authpriv : Facility := ⟨80⟩
def ftp : Facility := ⟨88⟩
def local0 : Facility := ⟨128⟩
def local1 : Facility := ⟨136⟩
def local2 : Facility := ⟨144⟩
def local3 : Facility := ⟨152⟩
def local4 : Facility := ⟨160⟩
def local5 : Facility := ⟨168⟩
def local6 : Facility := ⟨176⟩
def local7 : Facility := ⟨184⟩

end Facility

/-- `g_facilities`, the twenty facilities with their names. -/
def g_facilities : List (Facility × Str) :=
  [(.kernel, str "kernel"), (.user, str "user"), (.mail, str "mail"), (.daemon, str "daemon"),
   (.auth, str "auth"), (.syslog, str "syslog"), (.lpr, str "lpr"), (.news, str "news"),
   (.uucp, str "uucp"), (.cron, str "cron"), (.authpriv, str "authpriv"), (.ftp, str "ftp"),
   (.local0, str "local0"), (.local1, str "local1"), (.local2, str "local2"),
   (.local3, str "local3"), (.local4, str "local4"), (.local5, str "local5"),
   (.local6, str "local6"), (.local7, str "local7")]

/-- `FacilityName`: the name in the table, else "unknown". -/
def facilityName (facility : Facility) : Str :=
  match g_facilities.find? fun p => p.1 = facility with
  | some p => p.2
  | none => str "unknown"

/-- `enum class Severity : uint8_t`.  Any byte can be stored in it. -/
structure Severity where
  code : UInt8
deriving DecidableEq

namespace Severity

def emerg : Severity := ⟨0⟩
def alert : Severity := ⟨1⟩
def crit : Severity := ⟨2⟩
def err : Severity := ⟨3⟩
def warning : Severity := ⟨4⟩
def notice : Severity := ⟨5⟩
def info : Severity := ⟨6⟩
def debug : Severity := ⟨7⟩

end Severity

/-! ### The data model -/

/-- Microseconds since the epoch. -/
structure Timestamp where
  usecs : UInt64
deriving DecidableEq

/-- Where a message comes from: hostname, appname and process id. -/
structure MessageOrigin where
  hostname : ShortString 255
  appname : ShortString 255
  procid : UInt32
deriving DecidableEq

/-- The header of a message. -/
structure MessageHeader where
  timestamp : Timestamp
  facility : Facility
  severity : Severity
  origin : MessageOrigin
deriving DecidableEq

/-- A log message: its header and its text. -/
structure Message where
  header : MessageHeader
  message : ShortString 1500
deriving DecidableEq

/-- The stream encodings of the primitive types, from the library `StreamIO` belongs to. -/
structure StreamIO where
  u8 : Codec UInt8
  u32 : Codec UInt32
  encodedU64 : Codec UInt64
  shortString255 : Codec (ShortString 255)
  shortString1500 : Codec (ShortString 1500)

/-- A short string of at most `N` bytes after its length in `k` bytes. -/
def shortStringCodec (k N : Nat) (hk : 0 < k) (hN : N < 256 ^ k) : Codec (ShortString N) :=
  (Codec.lengthPrefixed k N hk hN).map (fun s => ⟨s.value, s.length_le⟩)
    (fun s => ⟨s.val, s.property⟩) fun _ => rfl

/-- The bytes of a 64-bit number without leading zeros, least significant first. -/
def minimalBytes (x : UInt64) : List UInt8 := (Nat.digits 256 x.toNat).map UInt8.ofNat

theorem length_minimalBytes_le (x : UInt64) : (minimalBytes x).length ≤ 8 := by
  rw [minimalBytes, List.length_map, Nat.digits_length_le_iff (by norm_num)]
  exact x.toNat_lt

theorem ofDigits_minimalBytes (x : UInt64) :
    Nat.ofDigits 256 ((minimalBytes x).map UInt8.toNat) = x.toNat := by
  have hmap : (minimalBytes x).map UInt8.toNat = Nat.digits 256 x.toNat := by
    rw [minimalBytes, List.map_map]
    refine List.map_congr_left (fun d hd => ?_) |>.trans (List.map_id _)
    have hlt : d < 256 := Nat.digits_lt_base (by norm_num) hd
    simpa using hlt
  rw [hmap, Nat.ofDigits_digits]

/-- `StreamIO` with every integer and string after its length, or in a fixed number of bytes. -/
def prefixedStreams : StreamIO where
  u8 := (Codec.bigEndian 1 (by norm_num)).map (fun b => ⟨b.toNat, b.toNat_lt⟩)
    (fun n => UInt8.ofNat n.val) fun b => by simp
  u32 := (Codec.bigEndian 4 (by norm_num)).map (fun b => ⟨b.toNat, b.toNat_lt⟩)
    (fun n => UInt32.ofNat n.val) fun b => by simp
  encodedU64 := (Codec.lengthPrefixed 1 8 (by norm_num) (by norm_num)).map
    (fun x => ⟨minimalBytes x, length_minimalBytes_le x⟩)
    (fun s => UInt64.ofNat (Nat.ofDigits 256 (s.val.map UInt8.toNat)))
    fun x => by simp only [ofDigits_minimalBytes, UInt64.ofNat_toNat]
  shortString255 := shortStringCodec 1 255 (by norm_num) (by norm_num)
  shortString1500 := shortStringCodec 2 1500 (by norm_num) (by norm_num)

/-! ### The checks of the decoder -/

/-- The common loop of the two name checks: `i` stops at the first character that is not `ok`, and
    the name is valid when `i` reached its size and it is not empty. -/
def isValidName (ok : UInt8 → Bool) (s : Str) : Bool :=
  let i := (s.takeWhile ok).length
  s.length == i && !s.isEmpty

/-- A character `IsValidHostname` goes past. -/
def hostnameChar (c : UInt8) : Bool := isalnum c || (hyphen == c || dot == c)

/-- `IsValidHostname`. -/
def isValidHostname (hn : Str) : Bool := isValidName hostnameChar hn

/-- A character `IsValidAppName` goes past. -/
def appNameChar (c : UInt8) : Bool := isalnum c || (underscore == c || dot == c || hyphen == c)

/-- `IsValidAppName`. -/
def isValidAppName (an : Str) : Bool := isValidName appNameChar an

/-! ### Reading and writing -/

section

variable (io : StreamIO)

/-- `MessageOrigin::Read`. -/
def MessageOrigin.read (bs : Str) : Option (MessageOrigin × Str) := do
  let (hostname, bs) ← io.shortString255.decode bs
  if isValidHostname hostname.value then
    let (appname, bs) ← io.shortString255.decode bs
    if isValidAppName appname.value then
      let (procid, bs) ← io.u32.decode bs
      pure (⟨hostname, appname, procid⟩, bs)
    else
      none
  else
    none

/-- `MessageOrigin::Write`. -/
def MessageOrigin.write (o : MessageOrigin) : Str :=
  io.shortString255.encode o.hostname ++ io.shortString255.encode o.appname ++
    io.u32.encode o.procid

/-- `MessageHeader::Read`.  The ranges of the facility and of the severity are checked after the
    origin has been read. -/
def MessageHeader.read (bs : Str) : Option (MessageHeader × Str) := do
  let (usecs, bs) ← io.encodedU64.decode bs
  let (facility, bs) ← io.u8.decode bs
  let (severity, bs) ← io.u8.decode bs
  let (origin, bs) ← MessageOrigin.read io bs
  if Facility.local7.code < facility ∨ Severity.debug.code < severity then
    none
  else
    pure (⟨⟨usecs⟩, ⟨facility⟩, ⟨severity⟩, origin⟩, bs)

/-- `MessageHeader::Write`. -/
def MessageHeader.write (h : MessageHeader) : Str :=
  io.encodedU64.encode h.timestamp.usecs ++ io.u8.encode h.facility.code ++
    io.u8.encode h.severity.code ++ h.origin.write io

/-- `Message::Read`. -/
def Message.read (bs : Str) : Option (Message × Str) := do
  let (header, bs) ← MessageHeader.read io bs
  let (message, bs) ← io.shortString1500.decode bs
  pure (⟨header, message⟩, bs)

/-- `Message::Write`. -/
def Message.write (m : Message) : Str :=
  m.header.write io ++ io.shortString1500.encode m.message

/-- The receivers' loop `while (msg.Read(payload))`: the messages read until the first failure. -/
def Message.readAll (payload : Str) : List Message := Codec.readAll (Message.read io) payload

end

/-- The messages the decoder does not reject: the names pass their checks, and the facility and the
    severity are in range. -/
structure Message.Acceptable (m : Message) : Prop where
  hostname : isValidHostname m.header.origin.hostname.value = true
  appname : isValidAppName m.header.origin.appname.value = true
  facility : m.header.facility.code ≤ Facility.local7.code
  severity : m.header.severity.code ≤ Severity.debug.code

instance (m : Message) : Decidable m.Acceptable :=
  decidable_of_iff (isValidHostname m.header.origin.hostname.value = true ∧
      isValidAppName m.header.origin.appname.value = true ∧
      m.header.facility.code ≤ Facility.local7.code ∧
      m.header.severity.code ≤ Severity.debug.code)
    ⟨fun ⟨h₁, h₂, h₃, h₄⟩ => ⟨h₁, h₂, h₃, h₄⟩, fun h => ⟨h.1, h.2, h.3, h.4⟩⟩

end Mclog
