import Mclog.Basic

/-!
# Message packets

`MessagePacket`: a view of a caller's buffer as nonce, payload and MAC.  The payload stream is a
span of the buffer with a put position.  Encryption and decryption work in place; libsodium's AEAD
is a parameter.
-/

namespace Mclog

/-- `k_nonceLen`, `crypto_secretbox_NONCEBYTES`. -/
def k_nonceLen : Nat := 24

/-- `k_macLen`, `crypto_aead_xchacha20poly1305_ietf_ABYTES`. -/
def k_macLen : Nat := 16

/-- `k_minPacketLen`. -/
def k_minPacketLen : Nat := k_nonceLen + k_macLen

/-- An authenticated cipher with `k_macLen` bytes of overhead whose decryption undoes its
    encryption under the same key and nonce. -/
structure Aead where
  /-- Ciphertext of a plaintext, with the MAC at its end. -/
  encrypt : (key nonce plain : Str) → Str
  /-- Plaintext of a ciphertext; `none` when the MAC does not verify. -/
  decrypt : (key nonce cipher : Str) → Option Str
  length_encrypt : ∀ key nonce plain, (encrypt key nonce plain).length = plain.length + k_macLen
  decrypt_encrypt : ∀ key nonce plain, decrypt key nonce (encrypt key nonce plain) = some plain
  length_decrypt : ∀ key nonce cipher plain, decrypt key nonce cipher = some plain →
    cipher.length = plain.length + k_macLen

/-- The key, cut or padded to the length of a MAC. -/
def keyTag (key : Str) : Str := (key ++ List.replicate k_macLen 0).take k_macLen

theorem length_keyTag (key : Str) : (keyTag key).length = k_macLen := by
  simp [keyTag]

/-- An `Aead` whose MAC is the key and whose ciphertext is the plaintext: it opens exactly under
    the key it was sealed with, for keys of at most `k_macLen` bytes without trailing zeros. -/
def tagAead : Aead where
  encrypt key _ plain := plain ++ keyTag key
  decrypt key _ cipher :=
    if k_macLen ≤ cipher.length ∧ cipher.drop (cipher.length - k_macLen) = keyTag key then
      some (cipher.take (cipher.length - k_macLen))
    else
      none
  length_encrypt key _ plain := by rw [List.length_append, length_keyTag]
  decrypt_encrypt key _ plain := by
    have hlen : (plain ++ keyTag key).length - k_macLen = plain.length := by
      rw [List.length_append, length_keyTag]
      omega
    have hge : k_macLen ≤ (plain ++ keyTag key).length := by simp [length_keyTag]
    rw [hlen, List.drop_left' rfl, List.take_left' rfl, if_pos ⟨hge, rfl⟩]
  length_decrypt key _ cipher plain h := by
    split_ifs at h with hcond
    rw [← Option.some.inj h, List.length_take]
    omega

/-- What `randombytes_buf` writes into the nonce. -/
structure Nonce where
  bytes : Str
  length_eq : bytes.length = k_nonceLen

/-- The nonce of zeros in examples has the right length. -/
theorem length_zeroNonce : (List.replicate k_nonceLen (0 : UInt8)).length = k_nonceLen :=
  List.length_replicate

/-- The buffer with `bs` written at `i`; a buffer keeps its length. -/
def overwrite (buf : Str) (i : Nat) (bs : Str) : Str :=
  buf.take i ++ bs.take (buf.length - i) ++ buf.drop (i + bs.length)

/-- Writing keeps the length of the buffer. -/
@[simp] theorem length_overwrite (buf : Str) (i : Nat) (bs : Str) :
    (overwrite buf i bs).length = buf.length := by
  simp only [overwrite, List.length_append, List.length_take, List.length_drop]
  omega

/-- A packet over a buffer of `_buflen` bytes.  The payload stream is the span of `spanLen` bytes
    at `spanOff`, with its put position. -/
structure MessagePacket where
  buf : Str
  spanOff : Nat
  spanLen : Nat
  tellp : Nat
  payloadLength : Nat
  /-- The constructor's assertion. -/
  minPacketLen_lt : k_minPacketLen < buf.length
  /-- The span leaves room for the nonce before it and the MAC after it. -/
  span_le : spanOff ≤ k_nonceLen ∧ spanLen + k_minPacketLen ≤ buf.length
  tellp_le : tellp ≤ spanLen
  payloadLength_le : payloadLength ≤ spanLen

namespace MessagePacket

/-- The constructor.  `none` when its assertion `_buflen > k_minPacketLen` fails, which aborts. -/
def ofBuf (buf : Str) : Option MessagePacket :=
  if h : k_minPacketLen < buf.length then
    some { buf := buf, spanOff := k_nonceLen, spanLen := buf.length - k_minPacketLen, tellp := 0,
           payloadLength := 0, minPacketLen_lt := h, span_le := ⟨le_rfl, by omega⟩,
           tellp_le := Nat.zero_le _, payloadLength_le := Nat.zero_le _ }
  else
    none

/-- The bytes a reader of `Payload()` finds. -/
def payload (pkt : MessagePacket) : Str := (pkt.buf.drop pkt.spanOff).take pkt.spanLen

/-- `HasPayload`. -/
def hasPayload (pkt : MessagePacket) : Bool := 0 < pkt.payloadLength

/-- `Add`, for a value whose encoding is `bytes`.  A write that does not fit leaves the part that
    does in the buffer, and the put position goes back to where it was. -/
def add (pkt : MessagePacket) (bytes : Str) : Bool × MessagePacket :=
  let prevPos := pkt.tellp
  if h : prevPos + bytes.length ≤ pkt.spanLen then
    (true, { pkt with
      buf := overwrite pkt.buf (pkt.spanOff + prevPos) bytes
      tellp := prevPos + bytes.length
      payloadLength := prevPos + bytes.length
      minPacketLen_lt := by simpa using pkt.minPacketLen_lt
      span_le := by simpa using pkt.span_le
      tellp_le := h
      payloadLength_le := h })
  else
    (false, { pkt with
      buf := overwrite pkt.buf (pkt.spanOff + prevPos) (bytes.take (pkt.spanLen - prevPos))
      tellp := prevPos
      payloadLength := prevPos
      minPacketLen_lt := by simpa using pkt.minPacketLen_lt
      span_le := by simpa using pkt.span_le
      payloadLength_le := pkt.tellp_le })

/-- `Reset`. -/
def reset (pkt : MessagePacket) : MessagePacket :=
  { pkt with tellp := 0, payloadLength := 0, tellp_le := Nat.zero_le _,
             payloadLength_le := Nat.zero_le _ }

/-- `Encrypt`: a nonce at the front, then the payload encrypted in place. -/
def encrypt (aead : Aead) (key : Str) (nonce : Nonce) (pkt : MessagePacket) :
    Bool × MessagePacket :=
  let buf := overwrite pkt.buf 0 nonce.bytes
  let cipher := aead.encrypt key nonce.bytes ((buf.drop k_nonceLen).take pkt.payloadLength)
  (pkt.payloadLength + k_macLen == cipher.length,
    { pkt with
      buf := overwrite buf k_nonceLen cipher
      minPacketLen_lt := by simpa [buf] using pkt.minPacketLen_lt
      span_le := by simpa [buf] using pkt.span_le })

/-- The datagram `SendTo(fd, dst)` passes to `sendto`. -/
def sendTo (pkt : MessagePacket) : Str :=
  pkt.buf.take (k_nonceLen + k_macLen + pkt.payloadLength)

/-- An empty payload stream at offset `off`. -/
def clearPayload (pkt : MessagePacket) (off : Nat) (h : off ≤ k_nonceLen) : MessagePacket :=
  { pkt with
    spanOff := off
    spanLen := 0
    tellp := 0
    payloadLength := 0
    span_le := ⟨h, by have := pkt.minPacketLen_lt; omega⟩
    tellp_le := le_rfl
    payloadLength_le := le_rfl }

/-- What is decrypted is taken for a payload only as far as the buffer has room for one. -/
theorem room_le (pkt : MessagePacket) (plain : Str) (plainLen : Nat) :
    min plainLen (pkt.buf.length - k_minPacketLen) + k_minPacketLen ≤
      (overwrite pkt.buf k_nonceLen plain).length := by
  have := pkt.minPacketLen_lt
  rw [length_overwrite]
  omega

/-- `Decrypt` of a packet of `recvlen` bytes in the buffer, in place; `recvlen` is at most the
    length of the buffer in every call.  When the MAC does not verify, libsodium has written zeros
    where the plaintext would be. -/
def decrypt (aead : Aead) (key : Str) (recvlen : Nat) (pkt : MessagePacket) :
    Int × MessagePacket :=
  if recvlen > k_nonceLen + k_macLen then
    let plainLen := recvlen - (k_nonceLen + k_macLen)
    match aead.decrypt key (pkt.buf.take k_nonceLen)
        ((pkt.buf.drop k_nonceLen).take (recvlen - k_nonceLen)) with
    | some plain =>
      let room := min plainLen (pkt.buf.length - k_minPacketLen)
      (recvlen, { pkt with
        buf := overwrite pkt.buf k_nonceLen plain
        spanOff := k_nonceLen
        spanLen := room
        tellp := 0
        payloadLength := room
        minPacketLen_lt := by simpa using pkt.minPacketLen_lt
        span_le := ⟨le_rfl, pkt.room_le plain plainLen⟩
        tellp_le := Nat.zero_le _
        payloadLength_le := le_rfl })
    | none =>
      let zeroed : MessagePacket := { pkt with
        buf := overwrite pkt.buf k_nonceLen (List.replicate plainLen 0)
        minPacketLen_lt := by simpa using pkt.minPacketLen_lt
        span_le := by simpa using pkt.span_le }
      (-1, zeroed.clearPayload k_nonceLen le_rfl)
  else
    (-1, pkt.clearPayload k_nonceLen le_rfl)

/-- `RecvFrom(fd, src)`, the unencrypted one; `none` is a `recvfrom` that failed.  The kernel cuts a
    datagram that is longer than the buffer. -/
def recvFrom (datagram : Option Str) (pkt : MessagePacket) : Int × MessagePacket :=
  match datagram with
  | none => (-1, pkt.clearPayload 0 (Nat.zero_le _))
  | some datagram =>
    let recvrc := min datagram.length pkt.buf.length
    let received : MessagePacket := { pkt with
      buf := overwrite pkt.buf 0 datagram
      minPacketLen_lt := by simpa using pkt.minPacketLen_lt
      span_le := by simpa using pkt.span_le }
    if recvrc > 0 then
      if h : recvrc > k_minPacketLen then
        (recvrc, { received with
          spanOff := k_nonceLen
          spanLen := recvrc - k_minPacketLen
          tellp := 0
          payloadLength := recvrc - k_minPacketLen
          span_le := ⟨le_rfl, by simp only [received, length_overwrite, recvrc] at h ⊢; omega⟩
          tellp_le := Nat.zero_le _
          payloadLength_le := le_rfl })
      else
        (0, received.clearPayload 0 (Nat.zero_le _))
    else
      (-1, received.clearPayload 0 (Nat.zero_le _))

end MessagePacket

end Mclog
