import Mclog.Message

/-!
# Messages in compressed files

`BZRead`, `BZWrite` and their counterparts for `gzFile`.  A reader of a compressed file is a
function from the decompressed bytes left; what it gives on success is the value, the number of
bytes it took (the positive result of the source's functions) and the bytes left.  `none` stands
for a result that is not positive.
-/

namespace Mclog

open General

/-- The three library classes that read and write the primitive types, and `IOUtils`, which knows
    how long each encoding is. -/
structure Transports where
  streamIO : StreamIO
  bz2IO : StreamIO
  gzIO : StreamIO
  streamedLengthU8 : UInt8 → Nat
  streamedLengthU32 : UInt32 → Nat
  streamedLengthEncodedU64 : UInt64 → Nat
  streamedLength255 : ShortString 255 → Nat
  streamedLength1500 : ShortString 1500 → Nat
  /-- The lengths are those of the encodings, on each of the three. -/
  length_encode : ∀ io ∈ [ streamIO, bz2IO, gzIO],
    (∀ b, (io.u8.encode b).length = streamedLengthU8 b) ∧
    (∀ n, (io.u32.encode n).length = streamedLengthU32 n) ∧
    (∀ n, (io.encodedU64.encode n).length = streamedLengthEncodedU64 n) ∧
    (∀ s, (io.shortString255.encode s).length = streamedLength255 s) ∧
    ∀ s, (io.shortString1500.encode s).length = streamedLength1500 s

/-- The transports that all use one encoding. -/
def Transports.uniform (io : StreamIO) : Transports where
  streamIO := io
  bz2IO := io
  gzIO := io
  streamedLengthU8 b := (io.u8.encode b).length
  streamedLengthU32 n := (io.u32.encode n).length
  streamedLengthEncodedU64 n := (io.encodedU64.encode n).length
  streamedLength255 s := (io.shortString255.encode s).length
  streamedLength1500 s := (io.shortString1500.encode s).length
  length_encode := by
    intro io' hio'
    obtain rfl : io' = io := by simpa using hio'
    exact ⟨fun _ => rfl, fun _ => rfl, fun _ => rfl, fun _ => rfl, fun _ => rfl⟩

/-! ### Reading -/

/-- A reader of a compressed file: the value, the number of bytes it took, the bytes left. -/
abbrev FileReader (α : Type) := Str → Option (α × Nat × Str)

/-- The library's reader of a primitive type. -/
def primitiveRead {α : Type} (c : Codec α) : FileReader α := fun bs => do
  let (a, rest) ← c.decode bs
  pure (a, bs.length - rest.length, rest)

section

variable (io : StreamIO)

/-- The common body of `Timestamp::BZRead` and `Timestamp::Read(gzFile)`. -/
def Timestamp.fileRead : FileReader Timestamp := fun bs => do
  let (eu64, rc, bs) ← primitiveRead io.encodedU64 bs
  pure (⟨eu64⟩, rc, bs)

/-- The common body of `MessageOrigin::BZRead` and `MessageOrigin::Read(gzFile)`.  Both names are
    checked after the three fields have been read. -/
def MessageOrigin.fileRead : FileReader MessageOrigin := fun bs => do
  let (hostname, n₁, bs) ← primitiveRead io.shortString255 bs
  let (appname, n₂, bs) ← primitiveRead io.shortString255 bs
  let (procid, n₃, bs) ← primitiveRead io.u32 bs
  let bytesRead := n₁ + n₂ + n₃
  if isValidHostname hostname.value && isValidAppName appname.value then
    pure (⟨hostname, appname, procid⟩, bytesRead, bs)
  else
    none

/-- The common body of `MessageHeader::BZRead` and `MessageHeader::Read(gzFile)`. -/
def MessageHeader.fileRead : FileReader MessageHeader := fun bs => do
  let (timestamp, n₁, bs) ← Timestamp.fileRead io bs
  let (facility, n₂, bs) ← primitiveRead io.u8 bs
  let (severity, n₃, bs) ← primitiveRead io.u8 bs
  let (origin, n₄, bs) ← MessageOrigin.fileRead io bs
  let rc := n₁ + n₂ + n₃ + n₄
  if Facility.local7.code < facility ∨ Severity.debug.code < severity then
    none
  else
    pure (⟨timestamp, ⟨facility⟩, ⟨severity⟩, origin⟩, rc, bs)

/-- The common body of `Message::BZRead` and `Message::Read(gzFile)`. -/
def Message.fileRead : FileReader Message := fun bs => do
  let (header, n₁, bs) ← MessageHeader.fileRead io bs
  let (message, n₂, bs) ← primitiveRead io.shortString1500 bs
  pure (⟨header, message⟩, n₁ + n₂, bs)

end

/-- The loops `while (msg.BZRead(bzf) > 0)` and `while (msg.Read(gzf) > 0)`. -/
def fileReadAll {α : Type} (read : FileReader α) (bs : Str) : List α :=
  Codec.readAll (fun bs => (read bs).map fun p => (p.1, p.2.2)) bs

/-! ### The members for each kind of file -/

variable (lib : Transports)

/-- `Message::BZRead`. -/
def Message.bzRead : FileReader Message := Message.fileRead lib.bz2IO

/-- `Message::Read(gzFile)`. -/
def Message.gzRead : FileReader Message := Message.fileRead lib.gzIO

/-- `Message::BZWrite`: the bytes it hands to the compressor. -/
def Message.bzWrite (m : Message) : Str := m.write lib.bz2IO

/-- `Message::Write(gzFile)`: the bytes it hands to the compressor. -/
def Message.gzWrite (m : Message) : Str := m.write lib.gzIO

/-- `Message::Write(std::ostream &)` with the library's `StreamIO`. -/
def Message.streamWrite (m : Message) : Str := m.write lib.streamIO

/-- `MessageOrigin::StreamedLength`. -/
def MessageOrigin.streamedLength (o : MessageOrigin) : Nat :=
  lib.streamedLength255 o.hostname + lib.streamedLength255 o.appname +
    lib.streamedLengthU32 o.procid

/-- `MessageHeader::StreamedLength`. -/
def MessageHeader.streamedLength (h : MessageHeader) : Nat :=
  lib.streamedLengthEncodedU64 h.timestamp.usecs + lib.streamedLengthU8 h.facility.code +
    lib.streamedLengthU8 h.severity.code + h.origin.streamedLength lib

/-- `Message::StreamedLength`. -/
def Message.streamedLength (m : Message) : Nat :=
  m.header.streamedLength lib + lib.streamedLength1500 m.message

end Mclog
