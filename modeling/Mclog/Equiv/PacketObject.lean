import Mclog.Equiv.MessagePacket
import Mclog.PacketObject

/-!
# The object and the packet

A `PacketObject` does to memory what `MessagePacket` does to the contents of its buffer:
`Represents` says that the object and memory are a packet, and every operation keeps it
(`Represents.add`, `Represents.encrypt`, `Represents.reset`) and changes nothing outside the buffer.
What a packet holds is thereby what the object has in memory, after every sequence of operations,
and what a receiver finds (`packet_exact`).
-/

namespace Mclog

open General

/-- Writing into memory overwrites the contents of a buffer. -/
theorem read_write_eq_overwrite (m : Memory UInt8) {a n i : Nat} (bs : Str) (h : i ≤ n) :
    (m.write (a + i) bs).read a n = overwrite (m.read a n) i bs := by
  rw [Memory.read_write m bs h, overwrite, Memory.length_read]

namespace PacketObject

/-- The object `p` and memory are the packet `pkt`. -/
structure Represents (p : PacketObject) (m : Memory UInt8) (pkt : MessagePacket) : Prop where
  buf : m.read p.buf p.buflen = pkt.buf
  first : p.payload.first = p.buf + pkt.spanOff
  size : p.payload.size = pkt.spanLen
  pos : p.payload.pos = pkt.tellp
  good : p.payload.good = true
  payloadLength : p.payloadLength = pkt.payloadLength

/-- The same buffer. -/
def SameBuffer (p q : PacketObject) : Prop := q.buf = p.buf ∧ q.buflen = p.buflen

/-- An object that has just been constructed is a packet that has. -/
theorem represents_construct {buf buflen : Nat} (h : k_minPacketLen < buflen) (m : Memory UInt8) :
    ∃ p pkt, construct buf buflen = some p ∧ p.buf = buf ∧ p.buflen = buflen ∧
      Represents p m pkt ∧ pkt.Holds [] := by
  have hlen : (m.read buf buflen).length = buflen := m.length_read buf buflen
  have hsome : (MessagePacket.ofBuf (m.read buf buflen)).isSome := by
    rw [MessagePacket.ofBuf_isSome_iff, hlen]
    exact h
  obtain ⟨pkt, hpkt⟩ := Option.isSome_iff_exists.mp hsome
  obtain ⟨hholds, hbuf⟩ := MessagePacket.holds_ofBuf hpkt
  refine ⟨_, pkt, if_pos h, rfl, rfl, ?_, hholds⟩
  have hspan := hholds.spanLen
  rw [hbuf, hlen] at hspan
  exact ⟨hbuf.symm, by rw [hholds.spanOff]; rfl, hspan.symm, hholds.tellp.symm, rfl,
    hholds.payloadLength.symm⟩

section

variable {p : PacketObject} {m : Memory UInt8} {pkt : MessagePacket}

theorem Represents.length_buf (h : Represents p m pkt) : pkt.buf.length = p.buflen := by
  rw [← h.buf, Memory.length_read]

/-- The span, with the overhead, is in the buffer. -/
theorem Represents.span_le (h : Represents p m pkt) :
    pkt.spanOff ≤ k_nonceLen ∧ pkt.spanLen + k_minPacketLen ≤ p.buflen := by
  rw [← h.length_buf]
  exact pkt.span_le

/-- `Reset`. -/
theorem Represents.reset (h : Represents p m pkt) : Represents p.reset m pkt.reset := by
  have hseek : p.payload.seekp 0 = { p.payload with pos := 0 } := by
    simp [SpanStream.seekp, h.good]
  refine ⟨h.buf, ?_, ?_, ?_, ?_, rfl⟩
  · show (p.payload.seekp 0).first = _
    rw [hseek]
    exact h.first
  · show (p.payload.seekp 0).size = _
    rw [hseek]
    exact h.size
  · show (p.payload.seekp 0).pos = _
    rw [hseek]
    rfl
  · show (p.payload.seekp 0).good = _
    rw [hseek]
    exact h.good

/-- An `Add` that fits. -/
theorem add_of_le (hgood : p.payload.good = true) {pieces : List Str}
    (hfits : pieces.flatten.length ≤ p.payload.room) :
    p.add m pieces =
      (true, { p with payload := { p.payload with pos := p.payload.pos + pieces.flatten.length },
                      payloadLength := p.payload.pos + pieces.flatten.length },
        m.write (p.payload.first + p.payload.pos) pieces.flatten) := by
  have hmin : min pieces.flatten.length p.payload.room = pieces.flatten.length := min_eq_left hfits
  have hwrite := SpanStream.writeAll_eq hgood m pieces
  rw [hmin, decide_eq_true hfits, List.take_of_length_le hfits] at hwrite
  simp only [add, hwrite, if_true, hgood]
  rfl

/-- An `Add` that does not fit writes the part that does, and goes back to where it was. -/
theorem add_of_lt (hgood : p.payload.good = true) (hpos : p.payload.pos ≤ p.payload.size)
    {pieces : List Str} (hfull : p.payload.room < pieces.flatten.length) :
    p.add m pieces =
      (false, { p with payloadLength := p.payload.pos },
        m.write (p.payload.first + p.payload.pos) (pieces.flatten.take p.payload.room)) := by
  have htell : p.payload.tellp = (p.payload.pos : Int) := if_pos hgood
  have hwrite := SpanStream.writeAll_eq hgood m pieces
  rw [decide_eq_false (Nat.not_le.mpr hfull)] at hwrite
  -- Back where it was, the stream is what it was.
  have hseek : ∀ pos : ℕ,
      SpanStream.seekp (SpanStream.clear ⟨p.payload.first, p.payload.size, pos, false⟩)
        p.payload.tellp = p.payload := by
    intro pos
    have hback := SpanStream.seekp_clear (s := ⟨p.payload.first, p.payload.size, pos, false⟩) hpos
    rw [htell, hback, ← hgood]
  simp only [add, hwrite, Bool.false_eq_true, if_false]
  rw [hseek, htell]
  rfl

/-- **`Add`** on the object and on the packet. -/
theorem Represents.add (h : Represents p m pkt) (pieces : List Str) :
    (p.add m pieces).1 = (pkt.add pieces.flatten).1 ∧
      Represents (p.add m pieces).2.1 (p.add m pieces).2.2 (pkt.add pieces.flatten).2 ∧
      SameBuffer p (p.add m pieces).2.1 ∧
      Memory.AgreeOutside p.buf p.buflen m (p.add m pieces).2.2 := by
  have htell := pkt.tellp_le
  obtain ⟨hoff, hspan⟩ := h.span_le
  simp only [k_minPacketLen] at hspan
  have hpos : p.payload.pos ≤ p.payload.size := by rwa [h.pos, h.size]
  have haddr : p.payload.first + p.payload.pos = p.buf + (pkt.spanOff + pkt.tellp) := by
    rw [h.first, h.pos, Nat.add_assoc]
  have hroom : p.payload.room = pkt.spanLen - pkt.tellp := by
    rw [SpanStream.room, h.size, h.pos]
  have hin : pkt.spanOff + pkt.tellp ≤ p.buflen := by omega
  by_cases hfits : pkt.tellp + pieces.flatten.length ≤ pkt.spanLen
  · rw [add_of_le h.good (by rw [hroom]; omega), haddr, MessagePacket.add, dif_pos hfits]
    refine ⟨rfl, ⟨?_, h.first, h.size, ?_, h.good, ?_⟩, ⟨rfl, rfl⟩, ?_⟩
    · show (m.write (p.buf + (pkt.spanOff + pkt.tellp)) pieces.flatten).read p.buf p.buflen = _
      rw [read_write_eq_overwrite m _ hin, h.buf]
    · show p.payload.pos + _ = pkt.tellp + _
      rw [h.pos]
    · show p.payload.pos + _ = pkt.tellp + _
      rw [h.pos]
    · apply Memory.agreeOutside_write
      omega
  · rw [add_of_lt h.good hpos (by rw [hroom]; omega), haddr, hroom, MessagePacket.add,
      dif_neg hfits]
    refine ⟨rfl, ⟨?_, h.first, h.size, h.pos, h.good, h.pos⟩, ⟨rfl, rfl⟩, ?_⟩
    · show (m.write (p.buf + (pkt.spanOff + pkt.tellp))
        (pieces.flatten.take (pkt.spanLen - pkt.tellp))).read p.buf p.buflen = _
      rw [read_write_eq_overwrite m _ hin, h.buf]
    · apply Memory.agreeOutside_write
      rw [List.length_take]
      omega

/-- The payload is in the buffer, with room for the nonce and the MAC. -/
theorem Represents.payloadLength_le (h : Represents p m pkt) :
    p.payloadLength + k_minPacketLen ≤ p.buflen := by
  have hle := pkt.payloadLength_le
  have hspan := h.span_le.2
  rw [h.payloadLength]
  omega

/-- The datagram of the object is the one of the packet. -/
theorem Represents.sendTo (h : Represents p m pkt) : p.sendTo m = pkt.sendTo := by
  have hle := h.payloadLength_le
  simp only [k_minPacketLen] at hle
  have hread := m.take_drop_read (a := p.buf) (n := p.buflen) (i := 0)
    (k := k_nonceLen + k_macLen + p.payloadLength) (by omega)
  rw [List.drop_zero, h.buf, Nat.add_zero] at hread
  rw [PacketObject.sendTo, MessagePacket.sendTo, ← hread, h.payloadLength]

/-- **`Encrypt`** on the object and on the packet. -/
theorem Represents.encrypt (h : Represents p m pkt) (aead : Aead) (key : Str) (nonce : Nonce) :
    (p.encrypt m aead key nonce).1 = (pkt.encrypt aead key nonce).1 ∧
      Represents p (p.encrypt m aead key nonce).2 (pkt.encrypt aead key nonce).2 := by
  have hle := h.payloadLength_le
  simp only [k_minPacketLen] at hle
  have hbuf : (m.write p.buf nonce.bytes).read p.buf p.buflen =
      overwrite pkt.buf 0 nonce.bytes := by
    have hwrite := read_write_eq_overwrite m (a := p.buf) (n := p.buflen) nonce.bytes
      (Nat.zero_le _)
    rw [h.buf, Nat.add_zero] at hwrite
    exact hwrite
  -- What the cipher gets is read back from the buffer.
  have hnonce : (m.write p.buf nonce.bytes).read p.buf k_nonceLen = nonce.bytes := by
    have hread := (m.write p.buf nonce.bytes).take_drop_read (a := p.buf) (n := p.buflen) (i := 0)
      (k := k_nonceLen) (by omega)
    rw [hbuf, Nat.add_zero] at hread
    rw [← hread, ← nonce.length_eq]
    apply drop_take_overwrite
    rw [h.length_buf, nonce.length_eq]
    omega
  have hplain : (m.write p.buf nonce.bytes).read (p.buf + k_nonceLen) p.payloadLength =
      ((overwrite pkt.buf 0 nonce.bytes).drop k_nonceLen).take pkt.payloadLength := by
    rw [← hbuf, Memory.take_drop_read _ (by rw [← h.payloadLength]; omega), h.payloadLength]
  simp only [PacketObject.encrypt, MessagePacket.encrypt, hnonce, hplain]
  refine ⟨by rw [h.payloadLength], ?_, h.first, h.size, h.pos, h.good, h.payloadLength⟩
  rw [read_write_eq_overwrite _ _ (by omega : k_nonceLen ≤ p.buflen), hbuf]

/-! ### Staying inside the buffer -/

/-- `Encrypt` and `SendTo` touch the buffer only. -/
structure StaysInside (aead : Aead) (p : PacketObject) : Prop where
  encrypt : ∀ key nonce, Memory.TouchesOnly p.buf p.buflen fun m => p.encrypt m aead key nonce
  sendTo : Memory.TouchesOnly p.buf p.buflen fun m => (p.sendTo m, m)

/-- **The buffer is all that is touched**, if the payload fits in with its nonce and MAC. -/
theorem staysInside (aead : Aead) (h : p.payloadLength + k_minPacketLen ≤ p.buflen) :
    StaysInside aead p := by
  have hlen : k_nonceLen + p.payloadLength + k_macLen ≤ p.buflen := by
    simp only [k_minPacketLen] at h
    omega
  constructor
  · intro key nonce
    have hnonce : 0 + nonce.bytes.length ≤ p.buflen := by
      rw [nonce.length_eq]
      omega
    have hcipher : ∀ n plain : Str, plain.length = p.payloadLength →
        k_nonceLen + (aead.encrypt key n plain).length ≤ p.buflen := by
      intro n plain hplain
      rw [aead.length_encrypt, hplain]
      omega
    constructor
    · intro m
      have hfirst : Memory.AgreeOutside p.buf p.buflen m (m.write p.buf nonce.bytes) :=
        m.agreeOutside_write hnonce
      exact hfirst.trans (Memory.agreeOutside_write _ (hcipher _ _ (Memory.length_read ..)))
    · intro m m' hm
      have hm₁ := hm.write p.buf nonce.bytes
      have hread : (m.write p.buf nonce.bytes).read p.buf k_nonceLen =
          (m'.write p.buf nonce.bytes).read p.buf k_nonceLen :=
        hm₁.read_eq (i := 0) (by omega)
      have hplain : (m.write p.buf nonce.bytes).read (p.buf + k_nonceLen) p.payloadLength =
          (m'.write p.buf nonce.bytes).read (p.buf + k_nonceLen) p.payloadLength :=
        hm₁.read_eq (by omega)
      simp only [PacketObject.encrypt, hread, hplain, true_and]
      exact hm₁.write _ _
  · have hread : Memory.TouchesOnly p.buf p.buflen fun m : Memory UInt8 =>
        (m.read (p.buf + 0) (k_nonceLen + k_macLen + p.payloadLength), m) :=
      Memory.touchesOnly_read (by omega)
    exact hread

/-! ### Receiving -/

/-- What a receiver has been given: it has received something, and from the beginning of its payload
    on it finds `bytes`. -/
structure Delivered (bytes : Str) (received : Int × PacketObject × Memory UInt8) : Prop where
  rc : 0 < received.1
  hasPayload : received.2.1.hasPayload = true
  pos : received.2.1.payload.pos = 0
  good : received.2.1.payload.good = true
  exposed : received.2.1.exposed received.2.2 = bytes

/-- What a receiver has that was given nothing. -/
structure Emptied (received : Int × PacketObject × Memory UInt8) : Prop where
  hasPayload : received.2.1.hasPayload = false
  exposed : received.2.1.exposed received.2.2 = []

theorem emptied_expose (p : PacketObject) (m : Memory UInt8) (rc : Int) (first : Nat) :
    Emptied (rc, p.expose first 0, m) := ⟨rfl, rfl⟩

/-- **A `Decrypt` that fails** leaves no payload. -/
theorem emptied_decrypt (aead : Aead) (key : Str) (recvlen : Nat)
    (h : (p.decrypt m aead key recvlen).1 ≤ 0) : Emptied (p.decrypt m aead key recvlen) := by
  unfold decrypt at h ⊢
  split_ifs at h ⊢ with hlong
  · simp only at h ⊢
    cases hopen : aead.decrypt key (m.read p.buf k_nonceLen)
        (m.read (p.buf + k_nonceLen) (recvlen - k_nonceLen)) with
    | none => exact emptied_expose ..
    | some plain =>
      -- It returns the length of the packet, which is positive.
      simp only [hopen] at h
      omega
  · exact emptied_expose ..

/-- **A `RecvFrom` that fails** leaves no payload. -/
theorem emptied_recvFrom (datagram : Option Str) (h : (p.recvFrom m datagram).1 ≤ 0) :
    Emptied (p.recvFrom m datagram) := by
  unfold recvFrom at h ⊢
  simp only at h ⊢
  split_ifs at h ⊢
  · omega
  · exact emptied_expose ..
  · exact emptied_expose ..

theorem emptied_recvFromSealed (aead : Aead) (key : Str) (datagram : Option Str)
    (h : (p.recvFromSealed m aead key datagram).1 ≤ 0) :
    Emptied (p.recvFromSealed m aead key datagram) := by
  unfold recvFromSealed at h ⊢
  simp only at h ⊢
  split_ifs at h ⊢
  · exact emptied_decrypt aead key _ h
  · exact emptied_expose ..
  · exact emptied_expose ..

/-- What `recvfrom` does with a datagram that the buffer has room for. -/
theorem recvfrom_of_le {datagram : Str} (h : datagram.length ≤ p.buflen) :
    p.recvfrom m (some datagram) = ((datagram.length : Int), m.write p.buf datagram) := by
  show (((min datagram.length p.buflen : Nat) : Int), m.write p.buf (datagram.take p.buflen)) = _
  rw [List.take_of_length_le h, min_eq_left h]

/-- **A plain datagram gives its payload back.** -/
theorem delivered_recvFrom {bytes head tail : Str} (hne : bytes ≠ [])
    (hhead : head.length = k_nonceLen) (htail : tail.length = k_macLen)
    (hroom : bytes.length + k_minPacketLen ≤ p.buflen) :
    Delivered bytes (p.recvFrom m (some (head ++ bytes ++ tail))) := by
  have hpos : 0 < bytes.length := List.length_pos_iff.mpr hne
  have hlen : (head ++ bytes ++ tail).length = bytes.length + k_minPacketLen := by
    simp only [List.length_append, hhead, htail, k_minPacketLen]
    omega
  have hrecv := recvfrom_of_le (m := m) (hlen.le.trans hroom)
  have hplain : (head ++ bytes ++ tail).length - (k_nonceLen + k_macLen) = bytes.length := by
    rw [hlen]
    simp only [k_minPacketLen]
    omega
  have hmin : 0 < k_minPacketLen := by decide
  unfold recvFrom
  simp only [hrecv]
  rw [if_pos (by omega), if_pos (by omega), Int.toNat_natCast, hplain]
  refine ⟨?_, ?_, rfl, rfl, ?_⟩
  · show 0 < ((head ++ bytes ++ tail).length : Int)
    omega
  · exact decide_eq_true hpos
  · show (m.write p.buf (head ++ bytes ++ tail)).read (p.buf + k_nonceLen) bytes.length = bytes
    rw [Memory.read_write_inside m (by rw [hlen]; simp only [k_minPacketLen]; omega),
      List.append_assoc, List.drop_left' hhead, List.take_left' rfl]

/-- **A sealed packet in the buffer gives its payload back.** -/
theorem delivered_decrypt (aead : Aead) (key : Str) (nonce : Nonce) {bytes : Str} (hne : bytes ≠ [])
    (hbuf : m.read p.buf (MessagePacket.sealed aead key nonce bytes).length =
      MessagePacket.sealed aead key nonce bytes) :
    Delivered bytes
      (p.decrypt m aead key (MessagePacket.sealed aead key nonce bytes).length) := by
  have hpos : 0 < bytes.length := List.length_pos_iff.mpr hne
  have hlen := MessagePacket.length_sealed aead key nonce bytes
  simp only [k_minPacketLen] at hlen
  -- The nonce and the ciphertext are where they are looked for.
  have hnonce : m.read p.buf k_nonceLen = nonce.bytes := by
    have hread := m.take_drop_read (a := p.buf) (i := 0) (k := k_nonceLen)
      (n := (MessagePacket.sealed aead key nonce bytes).length) (by omega)
    rw [hbuf, Nat.add_zero, List.drop_zero] at hread
    rw [← hread, MessagePacket.sealed, List.take_left' nonce.length_eq]
  have hcipher : m.read (p.buf + k_nonceLen)
      ((MessagePacket.sealed aead key nonce bytes).length - k_nonceLen) =
        aead.encrypt key nonce.bytes bytes := by
    rw [← m.take_drop_read (n := (MessagePacket.sealed aead key nonce bytes).length) (by omega),
      hbuf, MessagePacket.sealed, List.drop_left' nonce.length_eq, List.take_of_length_le]
    rw [List.length_append, nonce.length_eq]
    omega
  have hplain : (MessagePacket.sealed aead key nonce bytes).length - (k_nonceLen + k_macLen) =
      bytes.length := by omega
  unfold decrypt
  rw [if_pos (by omega), hnonce, hcipher, aead.decrypt_encrypt, hplain]
  refine ⟨?_, decide_eq_true hpos, rfl, rfl, Memory.read_write_self ..⟩
  show 0 < ((MessagePacket.sealed aead key nonce bytes).length : Int)
  omega

/-- A sealed packet that arrives gives its payload back. -/
theorem delivered_recvFromSealed (aead : Aead) (key : Str) (nonce : Nonce) {bytes : Str}
    (hne : bytes ≠ []) (hroom : bytes.length + k_minPacketLen ≤ p.buflen) :
    Delivered bytes
      (p.recvFromSealed m aead key (some (MessagePacket.sealed aead key nonce bytes))) := by
  have hpos : 0 < bytes.length := List.length_pos_iff.mpr hne
  have hlen := MessagePacket.length_sealed aead key nonce bytes
  have hrecv : p.recvfrom m (some (MessagePacket.sealed aead key nonce bytes)) =
      (((MessagePacket.sealed aead key nonce bytes).length : Int),
        m.write p.buf (MessagePacket.sealed aead key nonce bytes)) :=
    recvfrom_of_le (by omega)
  unfold recvFromSealed
  simp only [hrecv]
  rw [if_pos (by omega), if_pos (by omega), Int.toNat_natCast]
  apply delivered_decrypt aead key nonce hne
  exact Memory.read_write_self ..

end

/-! ### Every sequence of operations -/

/-- What `Payload()` and the length say of what a packet holds. -/
structure InStep (p : PacketObject) (m : Memory UInt8) (held : Str) : Prop where
  payloadLength : (p.payloadLength : Int) = p.payload.tellp
  tellp_le : p.payload.tellp ≤ p.buflen - k_minPacketLen
  bytes : m.read (p.buf + k_nonceLen) p.payloadLength = held

/-- What receivers with room for it make of a packet that holds something, sent plain and sealed,
    and what is left in a buffer that the sealed packet is in. -/
def Delivers (aead : Aead) (p : PacketObject) (m : Memory UInt8) (held : Str) : Prop :=
  held ≠ [] → ∀ (r : PacketObject) (m' : Memory UInt8),
    (held.length + k_minPacketLen ≤ r.buflen → Delivered held (r.recvFrom m' (some (p.sendTo m)))) ∧
    ∀ key nonce, let datagram := p.sendTo (p.encrypt m aead key nonce).2
      (held.length + k_minPacketLen ≤ r.buflen →
        Delivered held (r.recvFromSealed m' aead key (some datagram))) ∧
      (m'.read r.buf datagram.length = datagram →
        Delivered held (r.decrypt m' aead key datagram.length))

/-- What fails leaves nothing. -/
structure FailuresEmpty (aead : Aead) : Prop where
  recvFrom : ∀ (r : PacketObject) (m : Memory UInt8) (datagram : Option Str),
    (r.recvFrom m datagram).1 ≤ 0 → Emptied (r.recvFrom m datagram)
  recvFromSealed : ∀ (r : PacketObject) (m : Memory UInt8) (key : Str) (datagram : Option Str),
    (r.recvFromSealed m aead key datagram).1 ≤ 0 → Emptied (r.recvFromSealed m aead key datagram)
  decrypt : ∀ (r : PacketObject) (m : Memory UInt8) (key : Str) (recvlen : Nat),
    (r.decrypt m aead key recvlen).1 ≤ 0 → Emptied (r.decrypt m aead key recvlen)

theorem failuresEmpty (aead : Aead) : FailuresEmpty aead where
  recvFrom _ _ datagram h := emptied_recvFrom datagram h
  recvFromSealed _ _ key datagram h := emptied_recvFromSealed aead key datagram h
  decrypt _ _ key recvlen h := emptied_decrypt aead key recvlen h

section

variable {p : PacketObject} {m : Memory UInt8} {pkt : MessagePacket} {held : Str}

/-- The stream and the length are in step in an object that is a packet. -/
theorem Represents.inStep (h : Represents p m pkt) (hheld : pkt.Holds held) : InStep p m held := by
  have htell : p.payload.tellp = (p.payload.pos : Int) := if_pos h.good
  have hle := h.payloadLength_le
  have hpos : p.payload.pos = p.payloadLength := by
    rw [h.pos, h.payloadLength, hheld.tellp, hheld.payloadLength]
  refine ⟨by rw [htell, hpos], by rw [htell, hpos]; omega, ?_⟩
  simp only [k_minPacketLen] at hle
  rw [← m.take_drop_read (n := p.buflen) (by omega), h.buf, h.payloadLength, hheld.payloadLength]
  exact hheld.bytes_eq

/-- `Add` adds exactly what fits. -/
theorem Represents.add_iff (h : Represents p m pkt) (hheld : pkt.Holds held) (pieces : List Str) :
    (p.add m pieces).1 = true ↔
      held.length + pieces.flatten.length ≤ p.buflen - k_minPacketLen := by
  rw [(h.add pieces).1, ← h.length_buf]
  constructor
  · intro hadd
    by_contra hfull
    rw [(hheld.add_of_lt pieces.flatten (by omega)).1] at hadd
    cases hadd
  · intro hfit
    exact (hheld.add_of_le pieces.flatten hfit).1

/-- What an object holds is delivered. -/
theorem Represents.delivers (h : Represents p m pkt) (hheld : pkt.Holds held) (aead : Aead) :
    Delivers aead p m held := by
  intro hne r m'
  refine ⟨fun hroom => ?_, fun key nonce => ?_⟩
  · obtain ⟨head, tail, hhead, htail, hsend⟩ := hheld.sendTo
    rw [h.sendTo, hsend]
    exact delivered_recvFrom hne hhead htail hroom
  · have hsealed : p.sendTo (p.encrypt m aead key nonce).2 =
        MessagePacket.sealed aead key nonce held := by
      rw [(h.encrypt aead key nonce).2.sendTo]
      exact (hheld.encrypt aead key nonce).2.1
    simp only [hsealed]
    exact ⟨fun hroom => delivered_recvFromSealed aead key nonce hne hroom,
      fun hbuf => delivered_decrypt aead key nonce hne hbuf⟩

/-- **One operation**: the object stays a packet that holds what the history says, in the same
    buffer, and nothing outside the buffer changes. -/
theorem Represents.operate (h : Represents p m pkt) {history : List (Operation × Outcome)}
    (hheld : pkt.Holds (heldBytes history)) (aead : Aead) (op : Operation) :
    let next := operate aead p m op
    SameBuffer p next.1 ∧ Memory.AgreeOutside p.buf p.buflen m next.2.1 ∧
      ∃ pkt', Represents next.1 next.2.1 pkt' ∧
        pkt'.Holds (heldBytes (history ++ [(op, next.2.2)])) := by
  cases op with
  | add pieces =>
    obtain ⟨hrc, hrep, hsame, hout⟩ := h.add pieces
    refine ⟨hsame, hout, _, hrep, ?_⟩
    show MessagePacket.Holds _ (heldBytes (history ++ [(.add pieces, .added (p.add m pieces).1)]))
    rw [hrc, heldBytes, List.foldl_append]
    rcases le_or_gt (heldBytes history ++ pieces.flatten).length
      (pkt.buf.length - k_minPacketLen) with hfit | hfull
    · rw [List.length_append] at hfit
      obtain ⟨hadd, hholds, -⟩ := hheld.add_of_le pieces.flatten hfit
      rw [hadd]
      exact hholds
    · rw [List.length_append] at hfull
      obtain ⟨hadd, hholds, -⟩ := hheld.add_of_lt pieces.flatten hfull
      rw [hadd]
      exact hholds
  | sendTo =>
    refine ⟨⟨rfl, rfl⟩, .refl _ _ _, _, h.reset, ?_⟩
    rw [heldBytes, List.foldl_append]
    exact hheld.reset.1
  | encryptSendTo key nonce =>
    refine ⟨⟨rfl, rfl⟩, ((staysInside aead h.payloadLength_le).encrypt key nonce).writes m, _,
      (h.encrypt aead key nonce).2.reset, ?_⟩
    rw [heldBytes, List.foldl_append]
    exact (hheld.encrypt aead key nonce).2.2.1
  | reset =>
    refine ⟨⟨rfl, rfl⟩, .refl _ _ _, _, h.reset, ?_⟩
    rw [heldBytes, List.foldl_append]
    exact hheld.reset.1

end

/-- **A packet holds what was added to it**, after every sequence of operations on a packet over a
    buffer that is long enough: the stream and the length are in step, `Add` adds what fits and all
    of it, no byte outside the buffer is touched, what is sent is what is received, and what is not
    received leaves nothing. -/
theorem packet_exact (aead : Aead) {buf buflen : Nat} (h : k_minPacketLen < buflen)
    (m₀ : Memory UInt8) (ops : List Operation) :
    ∃ p₀ p m history, construct buf buflen = some p₀ ∧
      (machine aead).run (p₀, m₀) ops = some ((p, m), history) ∧ history.map Prod.fst = ops ∧
      p.buf = buf ∧ p.buflen = buflen ∧ Memory.AgreeOutside buf buflen m₀ m ∧
      InStep p m (heldBytes history) ∧
      (∀ pieces : List Str, (p.add m pieces).1 = true ↔
        (heldBytes history).length + pieces.flatten.length ≤ buflen - k_minPacketLen) ∧
      StaysInside aead p ∧ Delivers aead p m (heldBytes history) ∧ FailuresEmpty aead := by
  obtain ⟨p₀, pkt₀, hconstruct, hbuf₀, hbuflen₀, hrep₀, hheld₀⟩ := represents_construct h m₀
  let R : List Operation → List (Operation × Outcome) → PacketObject × Memory UInt8 → Prop :=
    fun before history s => history.map Prod.fst = before ∧ s.1.buf = buf ∧ s.1.buflen = buflen ∧
      Memory.AgreeOutside buf buflen m₀ s.2 ∧
      ∃ pkt, Represents s.1 s.2 pkt ∧ pkt.Holds (heldBytes history)
  have hstep : ∀ before history s op, R before history s → True →
      ∃ s' out, machine aead s op = some (s', out) ∧ R (before ++ [op]) (history ++ out) s' := by
    rintro before history ⟨p, m⟩ op ⟨rfl, rfl, rfl, hout, pkt, hrep, hheld⟩ -
    obtain ⟨hsame, hwrites, pkt', hrep', hheld'⟩ := hrep.operate hheld aead op
    exact ⟨_, _, rfl, by simp, hsame.1, hsame.2, hout.trans hwrites, pkt', hrep', hheld'⟩
  have hmeets : (machine aead).Meets (fun _ _ => True) (p₀, m₀) ops :=
    (machine aead).meets_of_forall (P := fun _ => True) _ ops fun _ _ => trivial
  obtain ⟨⟨p, m⟩, history, hrun, hops, hbuf, hbuflen, hout, pkt, hrep, hheld⟩ :=
    (machine aead).run_history hstep ops [] [] (p₀, m₀)
      ⟨rfl, hbuf₀, hbuflen₀, .refl _ _ _, pkt₀, hrep₀, hheld₀⟩ hmeets
  rw [List.nil_append] at hops hheld
  refine ⟨p₀, p, m, history, hconstruct, hrun, hops, hbuf, hbuflen, hout, hrep.inStep hheld, ?_,
    staysInside aead hrep.payloadLength_le, hrep.delivers hheld aead, failuresEmpty aead⟩
  intro pieces
  rw [hrep.add_iff hheld pieces]
  exact iff_of_eq (congrArg (fun n => _ ≤ n - k_minPacketLen) hbuflen)

/-- Two values with a third one between them that does not fit behind the first. -/
def addsThree : List Operation := [.add [[1]], .add [[2, 3], [4]], .add [[5]]]

/-- A buffer with room for three bytes of payload. -/
theorem packet_exact_addsThree :
    ∃ p₀ p m history, construct 100 43 = some p₀ ∧
      (machine tagAead).run (p₀, fun _ => 0) addsThree = some ((p, m), history) ∧
      m.read (100 + k_nonceLen) p.payloadLength = [1, 5] := by
  obtain ⟨p₀, p, m, history, hconstruct, hrun, -, hbuf, -, -, hin, -⟩ :=
    @packet_exact tagAead 100 43 (by decide) (fun _ => 0) addsThree
  refine ⟨p₀, p, m, history, hconstruct, hrun, ?_⟩
  -- The second `Add` has returned false.
  have hheld : heldBytes history = [1, 5] := by
    obtain rfl := Option.some.inj hconstruct
    have hbytes := congrArg (Option.map fun s => heldBytes s.2) hrun
    exact (Option.some.inj hbytes).symm
  rw [← hbuf, hin.bytes, hheld]

end PacketObject

end Mclog
