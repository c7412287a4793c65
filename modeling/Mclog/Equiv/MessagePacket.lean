import Mclog.MessagePacket

/-!
# What a packet holds

`MessagePacket.Holds pkt bytes` says that the packet's payload, so far, is `bytes`: it is what `Add`
extends, what a failed `Add` leaves alone and what `Reset` empties.  The two ways of sending a packet
then meet the two ways of receiving it: a plain datagram gives the payload back to `recvFrom`
(`payload_recvFrom_sendTo`) and an encrypted one gives it back to `decrypt`
(`decrypt_encrypted`), as long as there is a payload at all.
-/

namespace Mclog

/-! ### Writing into a buffer -/

/-- A write that fits replaces the bytes from `i` on. -/
theorem overwrite_of_le (buf : Str) (i : Nat) (bs : Str) (h : i + bs.length ≤ buf.length) :
    overwrite buf i bs = buf.take i ++ bs ++ buf.drop (i + bs.length) := by
  rw [overwrite, List.take_of_length_le (by omega : bs.length ≤ buf.length - i)]

/-- What was written is found where it was written. -/
theorem drop_take_overwrite (buf : Str) (i : Nat) (bs : Str) (h : i + bs.length ≤ buf.length) :
    ((overwrite buf i bs).drop i).take bs.length = bs := by
  rw [overwrite_of_le buf i bs h, List.append_assoc, List.drop_left' (by simp; omega),
    List.take_left' rfl]

/-- A write leaves the bytes before it. -/
theorem drop_take_overwrite_of_le (buf : Str) (off i n : Nat) (bs : Str) (hn : off + n ≤ i)
    (hi : i ≤ buf.length) : ((overwrite buf i bs).drop off).take n = (buf.drop off).take n := by
  have htake : (overwrite buf i bs).take (off + n) = buf.take (off + n) := by
    rw [overwrite, List.append_assoc, List.take_append_of_le_length (by simp; omega),
      List.take_take, Nat.min_eq_left (by omega)]
  rw [List.take_drop, htake, ← List.take_drop]

namespace MessagePacket

/-- The constructor succeeds exactly on buffers longer than the minimum. -/
theorem ofBuf_isSome_iff (buf : Str) : (ofBuf buf).isSome ↔ k_minPacketLen < buf.length := by
  simp only [ofBuf]
  split_ifs with h <;> simp [h]

/-- The packet's payload, so far, is `bytes`, and the stream is the one of the constructor. -/
structure Holds (pkt : MessagePacket) (bytes : Str) : Prop where
  spanOff : pkt.spanOff = k_nonceLen
  spanLen : pkt.spanLen = pkt.buf.length - k_minPacketLen
  tellp : pkt.tellp = bytes.length
  payloadLength : pkt.payloadLength = bytes.length
  bytes_eq : (pkt.buf.drop k_nonceLen).take bytes.length = bytes

/-- A fresh packet holds nothing. -/
theorem holds_ofBuf {buf : Str} {pkt : MessagePacket} (h : ofBuf buf = some pkt) :
    pkt.Holds [] ∧ pkt.buf = buf := by
  simp only [ofBuf] at h
  split_ifs at h with hlen
  obtain rfl := Option.some.inj h
  exact ⟨⟨rfl, rfl, rfl, rfl, rfl⟩, rfl⟩

section

variable {pkt : MessagePacket} {bytes : Str}

/-- A packet has a payload when it holds something. -/
theorem Holds.hasPayload (h : pkt.Holds bytes) : pkt.hasPayload = true ↔ bytes ≠ [] := by
  rw [MessagePacket.hasPayload, h.payloadLength, decide_eq_true_eq]
  exact List.length_pos_iff

/-- What is held and the overhead fit the buffer. -/
theorem Holds.length_le (h : pkt.Holds bytes) : bytes.length + k_minPacketLen ≤ pkt.buf.length := by
  have := pkt.payloadLength_le
  have := pkt.span_le.2
  rw [h.payloadLength] at *
  omega

/-- An `Add` that fits appends. -/
theorem Holds.add_of_le (h : pkt.Holds bytes) (more : Str)
    (hfit : bytes.length + more.length ≤ pkt.buf.length - k_minPacketLen) :
    (pkt.add more).1 = true ∧ (pkt.add more).2.Holds (bytes ++ more) ∧
      (pkt.add more).2.buf.length = pkt.buf.length := by
  have hcond : pkt.tellp + more.length ≤ pkt.spanLen := by rwa [h.tellp, h.spanLen]
  have hmin := pkt.minPacketLen_lt
  simp only [add, dif_pos hcond, length_overwrite, and_true, true_and]
  refine ⟨h.spanOff, by simpa using h.spanLen, by simp [h.tellp], by simp [h.tellp], ?_⟩
  -- The new bytes are right after the old ones, which the write leaves alone.
  have hroom : k_nonceLen + bytes.length + more.length ≤ pkt.buf.length := by
    simp only [k_minPacketLen] at hfit hmin
    omega
  simp only [h.spanOff, h.tellp]
  rw [List.length_append, List.take_add, List.drop_drop, drop_take_overwrite _ _ _ hroom,
    drop_take_overwrite_of_le _ _ _ _ _ le_rfl (by omega), h.bytes_eq]

/-- An `Add` that does not fit changes nothing of what is held. -/
theorem Holds.add_of_lt (h : pkt.Holds bytes) (more : Str)
    (hfit : pkt.buf.length - k_minPacketLen < bytes.length + more.length) :
    (pkt.add more).1 = false ∧ (pkt.add more).2.Holds bytes ∧
      (pkt.add more).2.buf.length = pkt.buf.length := by
  have hcond : ¬ pkt.tellp + more.length ≤ pkt.spanLen := by
    rw [h.tellp, h.spanLen]
    omega
  have hle := h.length_le
  simp only [add, dif_neg hcond, length_overwrite, and_true, true_and]
  refine ⟨h.spanOff, by simpa using h.spanLen, h.tellp, h.tellp, ?_⟩
  simp only [h.spanOff, h.tellp]
  rw [drop_take_overwrite_of_le _ _ _ _ _ le_rfl (by simp only [k_minPacketLen] at hle; omega),
    h.bytes_eq]

/-- `Reset` empties the packet. -/
theorem Holds.reset (h : pkt.Holds bytes) :
    pkt.reset.Holds [] ∧ pkt.reset.buf.length = pkt.buf.length :=
  ⟨⟨h.spanOff, h.spanLen, rfl, rfl, rfl⟩, rfl⟩

/-! ### Unencrypted packets -/

/-- The datagram of a packet is its nonce area, what it holds and the MAC area. -/
theorem Holds.sendTo (h : pkt.Holds bytes) :
    ∃ head tail : Str, head.length = k_nonceLen ∧ tail.length = k_macLen ∧
      pkt.sendTo = head ++ bytes ++ tail := by
  have hle := h.length_le
  simp only [k_minPacketLen] at hle
  refine ⟨pkt.buf.take k_nonceLen, (pkt.buf.drop (k_nonceLen + bytes.length)).take k_macLen,
    by simp; omega, by simp; omega, ?_⟩
  have hbytes := h.bytes_eq
  rw [MessagePacket.sendTo, h.payloadLength,
    show k_nonceLen + k_macLen + bytes.length = k_nonceLen + bytes.length + k_macLen by omega,
    List.take_add, List.take_add, hbytes]

/-- **A plain datagram gives its payload back**: a receiver with room for it reads exactly what the
    sender's packet held, and takes an empty packet for nothing received. -/
theorem payload_recvFrom_sendTo (h : pkt.Holds bytes) (rcv : MessagePacket)
    (hroom : bytes.length + k_minPacketLen ≤ rcv.buf.length) :
    if bytes = [] then (rcv.recvFrom (some pkt.sendTo)).1 = 0
    else 0 < (rcv.recvFrom (some pkt.sendTo)).1 ∧
      (rcv.recvFrom (some pkt.sendTo)).2.payload = bytes := by
  obtain ⟨head, tail, hhead, htail, hsend⟩ := h.sendTo
  have hlen : pkt.sendTo.length = k_minPacketLen + bytes.length := by
    rw [hsend]
    simp only [List.length_append, hhead, htail, k_minPacketLen]
    omega
  have hmin : min pkt.sendTo.length rcv.buf.length = k_minPacketLen + bytes.length := by
    rw [hlen]
    omega
  have hpos : 0 < k_minPacketLen := by decide
  simp only [recvFrom, hmin]
  by_cases hnil : bytes = []
  · subst hnil
    simp [hpos]
  · have hne : 0 < bytes.length := List.length_pos_iff.mpr hnil
    rw [if_neg hnil, if_pos (by omega), dif_pos (by omega)]
    refine ⟨by simp only [Nat.cast_add]; omega, ?_⟩
    -- The datagram is at the front of the receiver's buffer, the payload after its nonce area.
    have hbuf : overwrite rcv.buf 0 pkt.sendTo =
        head ++ (bytes ++ (tail ++ rcv.buf.drop pkt.sendTo.length)) := by
      rw [overwrite_of_le _ _ _ (by omega), hsend]
      simp
    simp only [payload, hbuf]
    rw [List.drop_left' hhead, List.take_left' (by omega)]

/-- Receiving keeps the length of the buffer. -/
@[simp] theorem length_recvFrom (datagram : Option Str) (pkt : MessagePacket) :
    (pkt.recvFrom datagram).2.buf.length = pkt.buf.length := by
  cases datagram with
  | none => rfl
  | some datagram =>
    simp only [recvFrom]
    split_ifs <;> exact length_overwrite _ _ _

/-! ### Encrypted packets -/

variable (aead : Aead) (key : Str) (nonce : Nonce)

/-- An encrypted packet: the nonce and the ciphertext of the payload. -/
def sealed (bytes : Str) : Str := nonce.bytes ++ aead.encrypt key nonce.bytes bytes

theorem length_sealed (bytes : Str) :
    (sealed aead key nonce bytes).length = k_minPacketLen + bytes.length := by
  simp only [sealed, List.length_append, nonce.length_eq, aead.length_encrypt, k_minPacketLen]
  omega

/-- Encryption succeeds, and the datagram sent after it is the encrypted packet. -/
theorem Holds.encrypt (h : pkt.Holds bytes) :
    (pkt.encrypt aead key nonce).1 = true ∧
      (pkt.encrypt aead key nonce).2.sendTo = sealed aead key nonce bytes ∧
      ((pkt.encrypt aead key nonce).2.reset).Holds [] ∧
      (pkt.encrypt aead key nonce).2.buf.length = pkt.buf.length := by
  have hle := h.length_le
  have hnonce := nonce.length_eq
  simp only [k_minPacketLen] at hle
  -- The nonce does not touch the payload.
  have hplain : ((overwrite pkt.buf 0 nonce.bytes).drop k_nonceLen).take pkt.payloadLength =
      bytes := by
    rw [overwrite_of_le _ _ _ (by omega), List.take_zero, List.nil_append, List.drop_left' hnonce,
      Nat.zero_add, hnonce, h.payloadLength, h.bytes_eq]
  have hcipher := aead.length_encrypt key nonce.bytes bytes
  simp only [MessagePacket.encrypt, hplain, length_overwrite, and_true]
  refine ⟨by simp [hcipher, h.payloadLength], ?_,
    ⟨h.spanOff, by simpa [MessagePacket.reset] using h.spanLen, rfl, rfl, rfl⟩⟩
  simp only [MessagePacket.sendTo, h.payloadLength]
  have hfront : (overwrite pkt.buf 0 nonce.bytes).take k_nonceLen = nonce.bytes := by
    rw [overwrite_of_le _ _ _ (by omega), List.take_zero, List.nil_append, List.take_left' hnonce]
  rw [overwrite_of_le _ _ _ (by rw [length_overwrite]; omega), hfront]
  exact List.take_left' (by rw [List.length_append, hnonce, hcipher]; omega)

/-- **A packet decrypts to what it held.**  A buffer with just an encrypted packet is accepted by
    the constructor exactly when the packet is not empty, and then the payload is given back. -/
theorem decrypt_sealed (bytes : Str) (hne : bytes ≠ []) :
    ∃ pkt, ofBuf (sealed aead key nonce bytes) = some pkt ∧
      (pkt.decrypt aead key (sealed aead key nonce bytes).length).1 =
        (sealed aead key nonce bytes).length ∧
      (pkt.decrypt aead key (sealed aead key nonce bytes).length).2.payload = bytes := by
  have hlen := length_sealed aead key nonce bytes
  have hpos : 0 < bytes.length := List.length_pos_iff.mpr hne
  have hsome : (ofBuf (sealed aead key nonce bytes)).isSome := by
    rw [ofBuf_isSome_iff]
    omega
  obtain ⟨pkt, hpkt⟩ := Option.isSome_iff_exists.mp hsome
  obtain ⟨-, hbuf⟩ := holds_ofBuf hpkt
  refine ⟨pkt, hpkt, ?_⟩
  have hopen : aead.decrypt key (pkt.buf.take k_nonceLen)
      ((pkt.buf.drop k_nonceLen).take ((sealed aead key nonce bytes).length - k_nonceLen)) =
        some bytes := by
    rw [hbuf, sealed, List.take_left' nonce.length_eq, List.drop_left' nonce.length_eq,
      List.take_of_length_le, aead.decrypt_encrypt]
    rw [List.length_append, nonce.length_eq]
    omega
  have hgt : (sealed aead key nonce bytes).length > k_nonceLen + k_macLen := by
    simp only [k_minPacketLen] at hlen
    omega
  have hroom : min ((sealed aead key nonce bytes).length - (k_nonceLen + k_macLen))
      (pkt.buf.length - k_minPacketLen) = bytes.length := by
    simp only [hbuf, hlen, k_minPacketLen]
    omega
  simp only [decrypt, if_pos hgt, hopen, hroom, payload, true_and]
  exact drop_take_overwrite _ _ _ (by rw [hbuf]; simp only [k_minPacketLen] at hlen; omega)

/-- Decrypting keeps the length of the buffer. -/
@[simp] theorem length_decrypt (pkt : MessagePacket) (recvlen : Nat) :
    (pkt.decrypt aead key recvlen).2.buf.length = pkt.buf.length := by
  simp only [decrypt]
  split_ifs
  · split
    · exact length_overwrite _ _ _
    · exact length_overwrite _ _ _
  · rfl

/-- `Decrypt` either succeeds on the packet's bytes, or returns -1 and has wiped the plaintext
    area. -/
theorem decrypt_cases (pkt : MessagePacket) (recvlen : Nat) (hlt : k_minPacketLen < recvlen) :
    (pkt.decrypt aead key recvlen).1 = recvlen ∨
      (pkt.decrypt aead key recvlen).1 = -1 ∧
        (pkt.decrypt aead key recvlen).2.buf =
          overwrite pkt.buf k_nonceLen (List.replicate (recvlen - k_minPacketLen) 0) := by
  have hgt : recvlen > k_nonceLen + k_macLen := hlt
  simp only [decrypt, if_pos hgt]
  cases aead.decrypt key (pkt.buf.take k_nonceLen)
      ((pkt.buf.drop k_nonceLen).take (recvlen - k_nonceLen)) with
  | some plain => exact Or.inl rfl
  | none => exact Or.inr ⟨rfl, rfl⟩

/-- A receiver that holds `key` accepts the datagram: it can make a packet of it, and decrypting the
    packet returns a positive number. -/
def Accepted (aead : Aead) (key : Str) (datagram : Str) : Prop :=
  ∃ pkt, ofBuf datagram = some pkt ∧
    0 < (pkt.decrypt aead key datagram.length).1

instance (key datagram : Str) : Decidable (Accepted aead key datagram) :=
  decidable_of_iff
    (((ofBuf datagram).any fun pkt => 0 < (pkt.decrypt aead key datagram.length).1) = true)
    (by simp [Accepted, Option.any_eq_true])

/-- An encrypted packet is accepted exactly when it has a payload. -/
theorem accepted_sealed_iff (bytes : Str) :
    Accepted aead key (sealed aead key nonce bytes) ↔ bytes ≠ [] := by
  have hlen := length_sealed aead key nonce bytes
  constructor
  · rintro ⟨pkt, hpkt, -⟩ rfl
    have := (ofBuf_isSome_iff _).mp (Option.isSome_of_eq_some hpkt)
    rw [hlen] at this
    simp at this
  · intro hne
    obtain ⟨pkt, hpkt, hrc, -⟩ := decrypt_sealed aead key nonce bytes hne
    refine ⟨pkt, hpkt, ?_⟩
    rw [hrc, hlen]
    have : 0 < k_minPacketLen := by decide
    omega

end

end MessagePacket

end Mclog
