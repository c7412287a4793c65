import Mclog.General.Machine
import Mclog.General.Memory
import Mclog.MessagePacket

/-!
# Packets in memory

`MessagePacket` as the object it is: a pointer to a buffer that it does not own, the buffer's
length, a `std::spanstream` over a part of it and the length of the payload.  Every access is one to
memory, at the address that the code computes, and a value is added in the pieces that its `Write`
makes.
-/

namespace Mclog

open General

/-- An `ssize_t` or a stream position as a `size_t`. -/
def sizeT : Int → Nat
  | .ofNat n => n
  | .negSucc n => 2 ^ 64 - 1 - n

/-- `MessagePacket`. -/
structure PacketObject where
  buf : Nat
  buflen : Nat
  payload : SpanStream
  payloadLength : Nat

namespace PacketObject

/-- The constructor, for a buffer of `buflen` bytes at the address `buf`. -/
def construct (buf buflen : Nat) : Option PacketObject :=
  if buflen > k_minPacketLen then
    some { buf, buflen, payload := .ofSpan (buf + k_nonceLen) (buflen - (k_nonceLen + k_macLen)),
           payloadLength := 0 }
  else
    none

section

variable (p : PacketObject) (m : Memory UInt8)

/-- `HasPayload`. -/
def hasPayload : Bool := 0 < p.payloadLength

/-- What a reader of `Payload()` finds, from its beginning on. -/
def exposed : Str := m.read p.payload.first p.payload.size

/-- `Add`, of a value that is written in `pieces`. -/
def add (pieces : List Str) : Bool × PacketObject × Memory UInt8 :=
  let prevPos := p.payload.tellp
  let (payload, m) := p.payload.writeAll m pieces
  let rc := payload.good
  let payload := if rc then payload else payload.clear.seekp prevPos
  (rc, { p with payload, payloadLength := sizeT payload.tellp }, m)

/-- `Reset`. -/
def reset : PacketObject := { p with payload := p.payload.seekp 0, payloadLength := 0 }

/-- `Encrypt`, which gets `nonce` from `randombytes_buf`. -/
def encrypt (aead : Aead) (key : Str) (nonce : Nonce) : Bool × Memory UInt8 :=
  let m := m.write p.buf nonce.bytes
  let cipher := aead.encrypt key (m.read p.buf k_nonceLen)
    (m.read (p.buf + k_nonceLen) p.payloadLength)
  (p.payloadLength + k_macLen == cipher.length, m.write (p.buf + k_nonceLen) cipher)

/-- The datagram that `SendTo(fd, dst)` passes to `sendto`. -/
def sendTo : Str := m.read p.buf (k_nonceLen + k_macLen + p.payloadLength)

/-- A payload of `n` bytes at `first`, to be read. -/
def expose (first n : Nat) : PacketObject :=
  { p with payload := .ofSpan first n, payloadLength := n }

/-- `Decrypt`.  When the MAC does not verify, libsodium has written zeros where the plaintext would
    be. -/
def decrypt (aead : Aead) (key : Str) (recvlen : Nat) : Int × PacketObject × Memory UInt8 :=
  if recvlen > k_nonceLen + k_macLen then
    let plainLen := recvlen - (k_nonceLen + k_macLen)
    match aead.decrypt key (m.read p.buf k_nonceLen)
        (m.read (p.buf + k_nonceLen) (recvlen - k_nonceLen)) with
    | some plain =>
      (recvlen, p.expose (p.buf + k_nonceLen) plainLen, m.write (p.buf + k_nonceLen) plain)
    | none =>
      (-1, p.expose (p.buf + k_nonceLen) 0,
        m.write (p.buf + k_nonceLen) (List.replicate plainLen 0))
  else
    (-1, p.expose (p.buf + k_nonceLen) 0, m)

/-- What `recvfrom` returns and leaves in memory.  `none` is an error; the kernel cuts a datagram
    that is longer than the buffer. -/
def recvfrom (datagram : Option Str) : Int × Memory UInt8 :=
  match datagram with
  | none => (-1, m)
  | some datagram =>
    ((min datagram.length p.buflen : Nat), m.write p.buf (datagram.take p.buflen))

/-- `RecvFrom(fd, src)`, the unencrypted one. -/
def recvFrom (datagram : Option Str) : Int × PacketObject × Memory UInt8 :=
  let (recvrc, m) := p.recvfrom m datagram
  if recvrc > 0 then
    if recvrc > k_minPacketLen then
      (recvrc, p.expose (p.buf + k_nonceLen) (recvrc.toNat - (k_nonceLen + k_macLen)), m)
    else
      (0, p.expose p.buf 0, m)
  else
    (-1, p.expose p.buf 0, m)

/-- `RecvFrom(fd, secretKey, src)`. -/
def recvFromSealed (aead : Aead) (key : Str) (datagram : Option Str) :
    Int × PacketObject × Memory UInt8 :=
  let (recvrc, m) := p.recvfrom m datagram
  if recvrc > 0 then
    if recvrc > k_minPacketLen then
      { p with payloadLength := 0 }.decrypt m aead key recvrc.toNat
    else
      (0, p.expose p.buf 0, m)
  else
    (-1, p.expose p.buf 0, m)

end

/-! ### Use by a sender -/

/-- The operations of a sender on its packet. -/
inductive Operation where
  | add (pieces : List Str)
  | sendTo
  /-- `Encrypt` and then `SendTo`, as `SendTo(fd, secretKey, dst)` does. -/
  | encryptSendTo (key : Str) (nonce : Nonce)
  | reset

/-- What an operation gives: the result of `Add`, or the datagrams passed to `sendto`. -/
inductive Outcome where
  | added (rc : Bool)
  | sent (datagrams : List Str)
  | done

/-- One operation.  A packet that was sent is reset. -/
def operate (aead : Aead) (p : PacketObject) (m : Memory UInt8) :
    Operation → PacketObject × Memory UInt8 × Outcome
  | .add pieces =>
    let (rc, p, m) := p.add m pieces
    (p, m, .added rc)
  | .sendTo => (p.reset, m, .sent [p.sendTo m])
  | .encryptSendTo key nonce =>
    let (encrypted, m) := p.encrypt m aead key nonce
    (p.reset, m, .sent (if encrypted then [p.sendTo m] else []))
  | .reset => (p.reset, m, .done)

/-- A packet as a machine: operations in, operations with their outcomes out. -/
def machine (aead : Aead) :
    Machine (PacketObject × Memory UInt8) Operation (Operation × Outcome) := fun s op =>
  let (p, m, outcome) := operate aead s.1 s.2 op
  some ((p, m), [(op, outcome)])

/-- The bytes of the values for which `Add` has returned true, from the last time on that the packet
    was sent or reset. -/
def heldBytes (history : List (Operation × Outcome)) : Str :=
  history.foldl (fun held e =>
    match e with
    | (.add pieces, .added true) => held ++ pieces.flatten
    | (.add _, _) => held
    | _ => []) []

end PacketObject

end Mclog
