import Mclog.General.FillingReaders
import Mclog.MessageFiles

/-!
# The read loops of mclog

The `Read`, `BZRead` and gz `Read` members with the signals they give: the stream readers set the
fail bit, the readers of compressed files return a count, and each fills its object field by field.
The loops of `mclog` over them print the messages that its filter lets through.  The primitives of
the three library classes are parameters; `Accepts` is what the code relies on them for.
-/

namespace Mclog

open General

/-- The reading half of `BZ2IO` or `GZIO`. -/
structure FilePrimitives where
  u8 : CountReader UInt8
  u32 : CountReader UInt32
  encodedU64 : CountReader UInt64
  shortString255 : CountReader (ShortString 255)
  shortString1500 : CountReader (ShortString 1500)

/-- The primitives read the encodings of `io` and report what is none, a short read among it, with a
    count that is not positive. -/
structure FilePrimitives.Accepts (lib : FilePrimitives) (io : StreamIO) : Prop where
  u8 : lib.u8.Reads io.u8.decode
  u32 : lib.u32.Reads io.u32.decode
  encodedU64 : lib.encodedU64.Reads io.encodedU64.decode
  shortString255 : lib.shortString255.Reads io.shortString255.decode
  shortString1500 : lib.shortString1500.Reads io.shortString1500.decode

/-- The reading half of `StreamIO`. -/
structure StreamPrimitives where
  u8 : StreamReader UInt8
  u32 : StreamReader UInt32
  encodedU64 : StreamReader UInt64
  shortString255 : StreamReader (ShortString 255)
  shortString1500 : StreamReader (ShortString 1500)

/-- The primitives read the encodings of `io` and set the fail bit on what is none. -/
structure StreamPrimitives.Accepts (lib : StreamPrimitives) (io : StreamIO) : Prop where
  u8 : lib.u8.Reads io.u8.decode
  u32 : lib.u32.Reads io.u32.decode
  encodedU64 : lib.encodedU64.Reads io.encodedU64.decode
  shortString255 : lib.shortString255.Reads io.shortString255.decode
  shortString1500 : lib.shortString1500.Reads io.shortString1500.decode

/-! ### Streams -/

namespace StreamPrimitives

variable (lib : StreamPrimitives)

/-- `Timestamp::Read(std::istream &)`. -/
def timestampRead : StreamReader Timestamp := fun _ is =>
  let (eu64, is) := lib.encodedU64 0 is
  if is.failed then (⟨0⟩, is) else (⟨eu64⟩, is)

/-- `MessageOrigin::Read(std::istream &)`. -/
def originRead : StreamReader MessageOrigin := fun o is =>
  let (hostname, is) := lib.shortString255 o.hostname is
  if is.failed then
    (⟨hostname, o.appname, o.procid⟩, is)
  else if isValidHostname hostname.value then
    let (appname, is) := lib.shortString255 o.appname is
    if is.failed then
      (⟨hostname, appname, o.procid⟩, is)
    else if isValidAppName appname.value then
      let (procid, is) := lib.u32 o.procid is
      (⟨hostname, appname, procid⟩, is)
    else
      (⟨hostname, appname, o.procid⟩, { is with failed := true })
  else
    (⟨hostname, o.appname, o.procid⟩, { is with failed := true })

/-- `MessageHeader::Read(std::istream &)`. -/
def headerRead : StreamReader MessageHeader := fun h is =>
  let readV := lib.timestampRead.seq (lib.u8.seq (lib.u8.seq lib.originRead))
  let ((timestamp, facility, severity, origin), is) :=
    readV (h.timestamp, h.facility.code, h.severity.code, h.origin) is
  let is :=
    if is.failed then is
    else if Facility.local7.code < facility ∨ Severity.debug.code < severity then
      { is with failed := true }
    else is
  (⟨timestamp, ⟨facility⟩, ⟨severity⟩, origin⟩, is)

/-- `Message::Read(std::istream &)`. -/
def messageRead : StreamReader Message := fun m is =>
  let (header, is) := lib.headerRead m.header is
  if is.failed then
    (⟨header, m.message⟩, is)
  else
    let (message, is) := lib.shortString1500 m.message is
    (⟨header, message⟩, is)

/-- `ProcessIstream`: the messages printed.  `filter` is the `parse` of the filter, if there is
    one; the loop takes at most `steps` steps. -/
def processIstream (filter : Option (Message → Bool)) (steps : Nat) (msg : Message)
    (is : InputStream) : Option (List Message) :=
  lib.messageRead.loop (fun msg => filter.all fun parse => parse msg) steps msg is

end StreamPrimitives

/-! ### Compressed files -/

namespace FilePrimitives

variable (lib : FilePrimitives)

/-- `Timestamp::BZRead` and `Timestamp::Read(gzFile)`. -/
def timestampRead : CountReader Timestamp := fun _ bs =>
  let (rc, eu64, bs) := lib.encodedU64 0 bs
  if 0 < rc then (rc, ⟨eu64⟩, bs) else (rc, ⟨0⟩, bs)

/-- `MessageOrigin::BZRead` and `MessageOrigin::Read(gzFile)`. -/
def originRead : CountReader MessageOrigin := fun o bs =>
  let readV := lib.shortString255.seq (lib.shortString255.seq lib.u32)
  let (bytesRead, (hostname, appname, procid), bs) := readV (o.hostname, o.appname, o.procid) bs
  let rc :=
    if 0 < bytesRead then
      if isValidHostname hostname.value && isValidAppName appname.value then bytesRead else -1
    else -1
  (rc, ⟨hostname, appname, procid⟩, bs)

/-- `MessageHeader::BZRead` and `MessageHeader::Read(gzFile)`. -/
def headerRead : CountReader MessageHeader := fun h bs =>
  let readV := lib.timestampRead.seq (lib.u8.seq (lib.u8.seq lib.originRead))
  let (rc, (timestamp, facility, severity, origin), bs) :=
    readV (h.timestamp, h.facility.code, h.severity.code, h.origin) bs
  let rc :=
    if 0 < rc then
      if Facility.local7.code < facility ∨ Severity.debug.code < severity then -1 else rc
    else rc
  (rc, ⟨timestamp, ⟨facility⟩, ⟨severity⟩, origin⟩, bs)

/-- `Message::BZRead` and `Message::Read(gzFile)`. -/
def messageRead : CountReader Message := fun m bs =>
  let readV := lib.headerRead.seq lib.shortString1500
  let (rc, (header, message), bs) := readV (m.header, m.message) bs
  (rc, ⟨header, message⟩, bs)

/-- The common body of `ProcessBZ2File` and `ProcessGZFile`, for a file that opens: the messages
    printed. -/
def processFile (filter : Option (Message → Bool)) (steps : Nat) (msg : Message) (bs : Str) :
    Option (List Message) :=
  lib.messageRead.loop (fun msg => filter.all fun parse => parse msg) steps msg bs

end FilePrimitives

/-- `ProcessBZ2File`, on what the file decompresses to. -/
def processBZ2File ( bz2IO : FilePrimitives) := bz2IO.processFile

/-- `ProcessGZFile`, on what the file decompresses to. -/
def processGZFile ( gzIO : FilePrimitives) := gzIO.processFile

end Mclog
