import Mclog.Equiv.Message
import Mclog.Equiv.MessagePacket
import Mclog.General.Batcher
import Mclog.Senders

/-!
# The sender loops refine a batcher

Both loops refine `General.Batcher`, with the size of a message the length of its encoding and the
capacity of a packet the 1160 bytes of payload a 1200-byte buffer leaves: `senderLoop_refines`.  The
packet being filled holds the encodings of the pending batch, and each packet sent is one closed
batch.  The laws of the batcher then give the two ends of the pipelines:

* `LoopbackReceiver.run_sent`: the loopback receiver delivers exactly the messages that fit a
  packet, in order, if those pass its checks;
* `MulticastSender.accepted_iff`: a multicast source accepts every packet exactly when no oversized
  message is popped while the packet is empty.
-/

namespace Mclog

open General

/-- The payload a 1200-byte packet has room for. -/
def payloadCapacity : Nat := 1200 - k_minPacketLen

/-- The length of a message's encoding. -/
def encodedSize (io : StreamIO) (msg : Message) : Nat := (msg.write io).length

/-- The events of one wake-up: the messages popped, or a flush. -/
def Wake.events : Wake → List (BatchEvent Message)
  | .ready popped => popped.map .item
  | .timedOut => [.flush]

/-- The messages popped over a run, in order. -/
def Wake.popped : Wake → List Message
  | .ready popped => popped
  | .timedOut => []

/-! ### The simulation -/

section

variable (io : StreamIO)

/-- The encodings of a batch, one after another. -/
abbrev encodeBatch (batch : List Message) : Str := Codec.encodeAll (Message.write io) batch

theorem length_encodeBatch (batch : List Message) :
    (encodeBatch io batch).length = Batcher.total (encodedSize io) batch := by
  induction batch with
  | nil => rfl
  | cons m batch ih =>
    have hcons : encodeBatch io (m :: batch) = m.write io ++ encodeBatch io batch := rfl
    rw [hcons, List.length_append, ih]
    simp [Batcher.total, encodedSize]

theorem encodeBatch_ne_nil_iff (batch : List Message) : encodeBatch io batch ≠ [] ↔ batch ≠ [] := by
  rw [← List.length_pos_iff, length_encodeBatch]
  exact Batcher.total_pos_iff _ (fun m => m.write_length_pos io) batch

/-- A sender's state shows a batcher: the packet holds the pending batch, and what was sent for each
    packet is related by `Emitted` to the batch it held. -/
structure Shows (Emitted : List Str → List Message → Prop) (s : SenderState)
    (b : Batcher Message) : Prop where
  size : s.pkt.buf.length = 1200
  holds : s.pkt.Holds (encodeBatch io b.pending)
  sent : List.Forall₂ Emitted s.sent b.closed

/-- What a `SendPacket` must do: send the packet's batch and leave the packet empty. -/
def SendsPacket (Emitted : List Str → List Message → Prop) (sendPacket : SenderState → SenderState) :
    Prop :=
  ∀ s batch, s.pkt.buf.length = 1200 → s.pkt.Holds (encodeBatch io batch) →
    (sendPacket s).pkt.buf.length = 1200 ∧ (sendPacket s).pkt.Holds [] ∧
      ∃ out, (sendPacket s).sent = s.sent ++ [out] ∧ Emitted out batch

variable {io} {Emitted : List Str → List Message → Prop} {sendPacket : SenderState → SenderState}
  (hsend : SendsPacket io Emitted sendPacket)

include hsend

/-- Sending the packet closes the pending batch. -/
theorem SendsPacket.shows {s : SenderState} {b : Batcher Message} (h : Shows io Emitted s b) :
    Shows io Emitted (sendPacket s) ⟨b.closed ++ [b.pending], []⟩ := by
  obtain ⟨hsize, hholds, out, hout, hemit⟩ := hsend s b.pending h.size h.holds
  refine ⟨hsize, hholds, ?_⟩
  rw [hout]
  exact List.rel_append h.sent (List.Forall₂.cons hemit List.Forall₂.nil)

/-- One message popped is one item of the batcher. -/
theorem addOrSend_shows {s : SenderState} {b : Batcher Message} (h : Shows io Emitted s b)
    (msg : Message) :
    Shows io Emitted (addOrSend io sendPacket s msg)
      (Batcher.step (encodedSize io) payloadCapacity b (.item msg)) := by
  have hcap : s.pkt.buf.length - k_minPacketLen = payloadCapacity := by rw [h.size]; rfl
  have hlen := length_encodeBatch io b.pending
  simp only [Batcher.step]
  by_cases hroom : Batcher.total (encodedSize io) b.pending + encodedSize io msg ≤ payloadCapacity
  · -- The message fits what is left of the packet.
    obtain ⟨hadd, hholds, hsize⟩ := h.holds.add_of_le (msg.write io)
      (by rw [hlen, hcap]; exact hroom)
    rw [if_pos hroom, addOrSend]
    simp only [hadd, Bool.not_true, Bool.false_eq_true, if_false]
    refine ⟨by rw [hsize, h.size], ?_, h.sent⟩
    simpa using hholds
  · -- It does not: the packet goes out, and the message is tried on the empty one.
    obtain ⟨hadd, hholds, hsize⟩ := h.holds.add_of_lt (msg.write io)
      (by rw [hlen, hcap]; simpa [encodedSize] using hroom)
    rw [if_neg hroom, addOrSend]
    simp only [hadd, Bool.not_false, if_true]
    have hsent := hsend.shows (b := b)
      (s := { s with pkt := (s.pkt.add (msg.write io)).2 }) ⟨by rw [hsize, h.size], hholds, h.sent⟩
    have hcap' : (sendPacket { s with pkt := (s.pkt.add (msg.write io)).2 }).pkt.buf.length -
        k_minPacketLen = payloadCapacity := by rw [hsent.size]; rfl
    by_cases hfit : encodedSize io msg ≤ payloadCapacity
    · obtain ⟨-, hholds', hsize'⟩ := hsent.holds.add_of_le (msg.write io)
        (by rw [hcap']; simpa [encodedSize] using hfit)
      rw [if_pos hfit]
      refine ⟨by rw [hsize', hsent.size], ?_, hsent.sent⟩
      simpa using hholds'
    · obtain ⟨-, hholds', hsize'⟩ := hsent.holds.add_of_lt (msg.write io)
        (by rw [hcap']; simpa [encodedSize] using hfit)
      rw [if_neg hfit]
      exact ⟨by rw [hsize', hsent.size], hholds', hsent.sent⟩

/-- Sending when there is a payload is a flush of the batcher. -/
theorem sendIfPayload_shows {s : SenderState} {b : Batcher Message} (h : Shows io Emitted s b) :
    Shows io Emitted (sendIfPayload sendPacket s)
      (Batcher.step (encodedSize io) payloadCapacity b .flush) := by
  have hpay : s.pkt.hasPayload = true ↔ b.pending ≠ [] :=
    h.holds.hasPayload.trans (encodeBatch_ne_nil_iff io b.pending)
  simp only [Batcher.step, sendIfPayload]
  by_cases hnil : b.pending = []
  · rw [if_pos hnil, if_neg (fun hp => hpay.mp hp hnil)]
    exact h
  · rw [if_neg hnil, if_pos (hpay.mpr hnil)]
    exact hsend.shows h

/-- One wake-up is its events. -/
theorem wakeUp_shows {s : SenderState} {b : Batcher Message} (h : Shows io Emitted s b)
    (wake : Wake) :
    Shows io Emitted (wakeUp io sendPacket s wake)
      (wake.events.foldl (Batcher.step (encodedSize io) payloadCapacity) b) := by
  cases wake with
  | ready popped =>
    simp only [wakeUp, Wake.events]
    induction popped generalizing s b with
    | nil => exact h
    | cons msg popped ih => exact ih (addOrSend_shows hsend h msg)
  | timedOut => exact sendIfPayload_shows hsend h

/-- **A sender loop refines the batcher** on the events of its wake-ups. -/
theorem senderLoop_refines {pkt : MessagePacket} (hsize : pkt.buf.length = 1200)
    (hholds : pkt.Holds []) (wakes : List Wake) :
    Shows io Emitted (senderLoop io sendPacket ⟨pkt, []⟩ wakes)
      (Batcher.run (encodedSize io) payloadCapacity (wakes.flatMap Wake.events)) := by
  induction wakes using List.reverseRecOn with
  | nil => exact ⟨hsize, hholds, List.Forall₂.nil⟩
  | append_singleton wakes wake ih =>
    rw [List.flatMap_append, Batcher.run, List.foldl_append, senderLoop, List.foldl_append]
    simpa [senderLoop, Batcher.run] using wakeUp_shows hsend ih wake

end

/-! ### Loopback: from the queue to the sinks -/

section

variable (io : StreamIO)

/-- The datagrams a loopback packet with the given batch may be sent as. -/
def PlainDatagram (out : List Str) (batch : List Message) : Prop :=
  ∃ pkt : MessagePacket, pkt.buf.length = 1200 ∧ pkt.Holds (encodeBatch io batch) ∧
    out = [pkt.sendTo]

theorem LoopbackSender.sendsPacket :
    SendsPacket io (PlainDatagram io) LoopbackSender.sendPacket := by
  intro s batch hsize hholds
  obtain ⟨hreset, hlen⟩ := hholds.reset
  exact ⟨hlen.trans hsize, hreset, _, rfl, s.pkt, hsize, hholds, rfl⟩

/-- The items of the events of a run are the messages popped. -/
theorem filterMap_events (wakes : List Wake) :
    (wakes.flatMap Wake.events).filterMap BatchEvent.item? = wakes.flatMap Wake.popped := by
  induction wakes with
  | nil => rfl
  | cons wake wakes ih =>
    rw [List.flatMap_cons, List.filterMap_append, ih, List.flatMap_cons]
    congr 1
    cases wake with
    | ready popped => simp [Wake.events, Wake.popped, List.filterMap_map, BatchEvent.item?,
        Function.comp_def]
    | timedOut => rfl

/-- The loopback receiver reads what the packet of a datagram holds, and goes on with a buffer of
    the same size. -/
theorem LoopbackReceiver.runLoop_sendTo {pkt : MessagePacket} {bytes : Str} (h : pkt.Holds bytes)
    {buf : Str} (hbuf : k_minPacketLen < buf.length)
    (hroom : bytes.length + k_minPacketLen ≤ buf.length) (datagrams : List Str) :
    ∃ buf', buf'.length = buf.length ∧
      LoopbackReceiver.runLoop io buf (pkt.sendTo :: datagrams) =
        (LoopbackReceiver.runLoop io buf' datagrams).map (Message.readAll io bytes ++ ·) := by
  obtain ⟨rcv, hrcv⟩ := Option.isSome_iff_exists.mp ((MessagePacket.ofBuf_isSome_iff buf).mpr hbuf)
  obtain ⟨-, hrcvbuf⟩ := MessagePacket.holds_ofBuf hrcv
  have hpayload := MessagePacket.payload_recvFrom_sendTo h rcv (by rw [hrcvbuf]; exact hroom)
  refine ⟨(rcv.recvFrom (some pkt.sendTo)).2.buf, ?_, ?_⟩
  · rw [MessagePacket.length_recvFrom, hrcvbuf]
  have hmsgs : (if (rcv.recvFrom (some pkt.sendTo)).1 > 0 then
      Message.readAll io (rcv.recvFrom (some pkt.sendTo)).2.payload else []) =
        Message.readAll io bytes := by
    by_cases hnil : bytes = []
    · rw [if_pos hnil] at hpayload
      have hempty : Message.readAll io [] = [] := Message.readAll_encodeAll io []
      rw [hpayload, hnil, hempty]
      rfl
    · rw [if_neg hnil] at hpayload
      rw [if_pos hpayload.1, hpayload.2]
  rw [LoopbackReceiver.runLoop, hrcv]
  simp only [Option.bind_eq_bind, Option.bind_some, hmsgs, Option.pure_def]
  exact Option.map_eq_bind.symm

/-- The loopback receiver delivers the batch of each datagram, up to the first message of it that
    the decoder rejects. -/
theorem LoopbackReceiver.runLoop_plain (outs : List (List Str)) (batches : List (List Message))
    (h : List.Forall₂ (PlainDatagram io) outs batches) (buf : Str) (hbuf : buf.length = 1500) :
    LoopbackReceiver.runLoop io buf outs.flatten =
      some (batches.flatMap fun batch => batch.takeWhile fun m => decide m.Acceptable) := by
  induction h generalizing buf with
  | nil => rfl
  | cons hout _ ih =>
    obtain ⟨pkt, hsize, hholds, rfl⟩ := hout
    have hmin : k_minPacketLen < buf.length := by rw [hbuf]; decide
    have hlen := hholds.length_le
    obtain ⟨buf', hbuf', hloop⟩ :=
      LoopbackReceiver.runLoop_sendTo io hholds hmin (by omega) (List.flatten _)
    rw [List.flatten_cons, List.singleton_append, hloop, ih buf' (by omega),
      Option.map_some, Message.readAll_encodeAll, List.flatMap_cons]

/-- The loopback pipeline, whatever is popped: each closed batch is delivered up to its first
    message that the decoder rejects, and after the flush at the exit nothing is pending. -/
theorem loopback_pipeline (sendBuf : Vector UInt8 1200) (recvBuf : Vector UInt8 1500)
    (wakes : List Wake) :
    let b := Batcher.run (encodedSize io) payloadCapacity
      (wakes.flatMap Wake.events ++ [.flush])
    ((LoopbackSender.run io sendBuf wakes).bind fun sent =>
        LoopbackReceiver.run io recvBuf sent.flatten) =
      some (b.closed.flatMap fun batch => batch.takeWhile fun m => decide m.Acceptable) ∧
    b.closed.flatten =
      (wakes.flatMap Wake.popped).filter fun m => encodedSize io m ≤ payloadCapacity := by
  have hlen : sendBuf.toList.length = 1200 := by simp
  have hmin : k_minPacketLen < sendBuf.toList.length := by rw [hlen]; decide
  obtain ⟨pkt, hpkt⟩ :=
    Option.isSome_iff_exists.mp ((MessagePacket.ofBuf_isSome_iff _).mpr hmin)
  obtain ⟨hholds, hbuf⟩ := MessagePacket.holds_ofBuf hpkt
  have hloop := senderLoop_refines (LoopbackSender.sendsPacket io) (by rw [hbuf, hlen]) hholds wakes
  have hflush := sendIfPayload_shows (LoopbackSender.sendsPacket io) hloop
  rw [← Batcher.run_concat] at hflush
  intro b
  constructor
  · rw [LoopbackSender.run, hpkt]
    simp only [Option.bind_eq_bind, Option.bind_some, Option.pure_def, LoopbackReceiver.run]
    exact LoopbackReceiver.runLoop_plain io _ _ hflush.sent _ (by simp)
  · -- The last event is a flush, so all that fits is in the closed batches.
    have hpending : b.pending = [] := by
      by_contra hne
      obtain ⟨before, a, heq, -⟩ := (Batcher.pending_ne_nil_iff _ _ _).mp hne
      have := (List.append_inj' heq rfl).2
      simp at this
    have hclosed := Batcher.run_flatten (encodedSize io) payloadCapacity
      (wakes.flatMap Wake.events ++ [.flush])
    rw [show (Batcher.run (encodedSize io) payloadCapacity _) = b from rfl, hpending,
      List.append_nil, Batcher.fitting_concat, Batcher.fitting, filterMap_events] at hclosed
    simpa [BatchEvent.item?] using hclosed

/-- **The loopback pipeline.**  Whatever the timing of the sender's loop, the receiver delivers
    exactly the messages popped that fit a packet, in order, if each of those passes the decoder's
    checks. -/
theorem loopback_delivers (sendBuf : Vector UInt8 1200) (recvBuf : Vector UInt8 1500)
    (wakes : List Wake)
    (hacc : ∀ m ∈ wakes.flatMap Wake.popped, encodedSize io m ≤ payloadCapacity → m.Acceptable) :
    ((LoopbackSender.run io sendBuf wakes).bind fun sent =>
        LoopbackReceiver.run io recvBuf sent.flatten) =
      some ((wakes.flatMap Wake.popped).filter fun m => encodedSize io m ≤ payloadCapacity) := by
  obtain ⟨hrun, hclosed⟩ := loopback_pipeline io sendBuf recvBuf wakes
  rw [hrun, Option.some.injEq, ← hclosed]
  -- Every message of a closed batch fits, so it is acceptable and no batch is cut.
  have hwhole : ∀ batch ∈ (Batcher.run (encodedSize io) payloadCapacity
      (wakes.flatMap Wake.events ++ [.flush])).closed,
      (batch.takeWhile fun m => decide m.Acceptable) = batch := by
    intro batch hbatch
    rw [List.takeWhile_eq_self_iff]
    intro m hm
    have hfit := List.mem_flatten_of_mem hbatch hm
    rw [hclosed, List.mem_filter] at hfit
    exact decide_eq_true (hacc m hfit.1 (of_decide_eq_true hfit.2))
  rw [List.flatMap_def, List.map_congr_left hwhole, List.map_id']

end

/-- A message from the given host, with the given text. -/
def messageOf (hostname : ShortString 255) (text : ShortString 1500) : Message :=
  ⟨⟨⟨1⟩, .user, .info, ⟨hostname, ⟨str "app", length_app_le⟩, 1⟩⟩, text⟩

/-- Two ordinary messages in one packet, and a third after a time-out. -/
theorem loopback_delivers_ordinary :
    let m := messageOf ⟨str "host", by decide⟩ ⟨str "x", by decide⟩
    ((LoopbackSender.run prefixedStreams (Vector.replicate 1200 0)
        [.ready [m, m], .timedOut, .ready [m]]).bind fun sent =>
      LoopbackReceiver.run prefixedStreams (Vector.replicate 1500 0) sent.flatten) =
      some [m, m, m] := by
  intro m
  have hsize : encodedSize prefixedStreams m ≤ payloadCapacity := by decide
  have h := loopback_delivers prefixedStreams (Vector.replicate 1200 0) (Vector.replicate 1500 0)
    [.ready [m, m], .timedOut, .ready [m]] ?_
  · simpa [Wake.popped, hsize] using h
  · intro m' hm' _
    have : m' = m := by simpa [Wake.popped] using hm'
    rw [this]
    decide

/-- The longest text a message can hold. -/
def longText : ShortString 1500 := ⟨List.replicate 1500 120, List.length_replicate.le⟩

/-- A message with that text does not fit a packet. -/
theorem payloadCapacity_lt_encodedSize_longText (hostname : ShortString 255) :
    payloadCapacity < encodedSize prefixedStreams (messageOf hostname longText) := by
  have hlen (s : ShortString 1500) :
      (prefixedStreams.shortString1500.encode s).length = 2 + s.value.length := by
    simp [prefixedStreams, shortStringCodec, Codec.map, Codec.lengthPrefixed, Codec.bigEndian]
  have htext : longText.value.length = 1500 := List.length_replicate
  have hcap : payloadCapacity = 1160 := rfl
  have hmessage : (messageOf hostname longText).message = longText := rfl
  rw [encodedSize, Message.write, List.length_append, hmessage, hlen, htext, hcap]
  omega

/-- **What the loopback pipeline loses**: a message without a hostname, which the decoder rejects,
    and a message that does not fit a packet. -/
theorem loopback_loses :
    let nameless := messageOf (.empty 255) ⟨str "x", by decide⟩
    let oversized := messageOf ⟨str "host", by decide⟩ longText
    ∀ m ∈ [nameless, oversized],
      ((LoopbackSender.run prefixedStreams (Vector.replicate 1200 0) [.ready [m]]).bind fun sent =>
        LoopbackReceiver.run prefixedStreams (Vector.replicate 1500 0) sent.flatten) =
        some [] := by
  intro nameless oversized m hm
  obtain ⟨hrun, hclosed⟩ := loopback_pipeline prefixedStreams (Vector.replicate 1200 0)
    (Vector.replicate 1500 0) [.ready [m]]
  rw [hrun, Option.some.injEq, List.flatMap_eq_nil_iff]
  intro batch hbatch
  cases batch with
  | nil => rfl
  | cons m' batch =>
    -- Whatever is in a batch is `m`, and `m` fits.
    have hmem := List.mem_flatten_of_mem hbatch List.mem_cons_self
    rw [hclosed, List.mem_filter] at hmem
    obtain ⟨hm', hfit⟩ := hmem
    obtain rfl : m' = m := by simpa [Wake.popped] using hm'
    simp only [List.mem_cons, List.not_mem_nil, or_false] at hm
    rcases hm with rfl | rfl
    · rw [List.takeWhile_cons_of_neg (by decide)]
    · have := payloadCapacity_lt_encodedSize_longText ⟨str "host", by decide⟩
      exact absurd (of_decide_eq_true hfit) (by simpa [oversized] using this)

/-! ### Multicast: what a source accepts -/

section

variable (io : StreamIO) (aead : Aead) (sender : MulticastSender)

/-- The datagrams a multicast packet with the given batch may be sent as: one on each open socket,
    all the same encrypted packet. -/
def SealedDatagrams (out : List Str) (batch : List Message) : Prop :=
  out ≠ [] ∧ ∃ nonce, ∀ d ∈ out,
    d = MessagePacket.sealed aead sender.key nonce (encodeBatch io batch)

theorem MulticastSender.sendsPacket :
    SendsPacket io (SealedDatagrams io aead sender) (sender.sendPacket aead) := by
  intro s batch hsize hholds
  have henc := hholds.encrypt aead sender.key (sender.nonces s.sent.length)
  simp only [MulticastSender.sendPacket]
  generalize s.pkt.encrypt aead sender.key (sender.nonces s.sent.length) = enc at henc ⊢
  obtain ⟨ok, pkt⟩ := enc
  obtain ⟨rfl, hsent, hreset, hlen⟩ := henc
  refine ⟨hlen.trans hsize, hreset, _, rfl, ?_, sender.nonces s.sent.length, ?_⟩
  · have hopen := sender.sockets.one_open
    cases hfd : sender.sockets.fd with
    | true => simp
    | false =>
      rw [hfd, Bool.false_or] at hopen
      simp [hopen]
  · intro d hd
    rw [if_pos rfl, List.mem_append] at hd
    rw [← hsent]
    rcases hd with hd | hd
    · split_ifs at hd
      · exact List.mem_singleton.mp hd
      · simp at hd
    · split_ifs at hd
      · exact List.mem_singleton.mp hd
      · simp at hd

/-- The datagrams of a multicast sender are the closed batches, encrypted. -/
theorem MulticastSender.run_sent (buf : Vector UInt8 1200) (wakes : List Wake) :
    ∃ sent, sender.run aead io buf wakes = some sent ∧
      List.Forall₂ (SealedDatagrams io aead sender) sent
        (Batcher.run (encodedSize io) payloadCapacity (wakes.flatMap Wake.events)).closed := by
  have hlen : buf.toList.length = 1200 := by simp
  have hmin : k_minPacketLen < buf.toList.length := by rw [hlen]; decide
  obtain ⟨pkt, hpkt⟩ :=
    Option.isSome_iff_exists.mp ((MessagePacket.ofBuf_isSome_iff _).mpr hmin)
  obtain ⟨hholds, hbuf⟩ := MessagePacket.holds_ofBuf hpkt
  refine ⟨_, by rw [MulticastSender.run, hpkt]; rfl, ?_⟩
  exact (senderLoop_refines (MulticastSender.sendsPacket io aead sender) (by rw [hbuf, hlen])
    hholds wakes).sent

/-- **Sender and receiver agree, exactly when no empty packet is sent.**  Every datagram of a
    multicast sender is accepted by a source with the sender's key if and only if every message too
    long for a packet is popped directly after one that is not. -/
theorem multicast_accepted_iff (buf : Vector UInt8 1200) (wakes : List Wake) :
    (∃ sent, sender.run aead io buf wakes = some sent ∧
        ∀ d ∈ sent.flatten, MessagePacket.Accepted aead sender.key d) ↔
      Batcher.OversizedAfterFitting (encodedSize io) payloadCapacity
        (wakes.flatMap Wake.events) := by
  obtain ⟨sent, hrun, hsent⟩ := MulticastSender.run_sent io aead sender buf wakes
  rw [hrun, ← Batcher.run_ne_nil_iff]
  simp only [Option.some.injEq, exists_eq_left']
  generalize (Batcher.run (encodedSize io) payloadCapacity
    (wakes.flatMap Wake.events)).closed = closed at hsent ⊢
  clear hrun
  -- A packet's datagrams are accepted exactly when its batch is not empty.
  induction hsent with
  | nil => simp
  | cons hout _ ih =>
    obtain ⟨hne, nonce, hall⟩ := hout
    obtain ⟨d, hd⟩ := List.exists_mem_of_ne_nil _ hne
    simp only [List.flatten_cons, List.mem_append, or_imp, forall_and, List.mem_cons, forall_eq, ih]
    refine and_congr_left fun _ => ?_
    rw [← encodeBatch_ne_nil_iff io, ← MessagePacket.accepted_sealed_iff aead sender.key nonce]
    constructor
    · intro h
      rw [← hall d hd]
      exact h d hd
    · intro h d' hd'
      rw [hall d' hd']
      exact h

end

/-- A sender with one socket and the nonce 0. -/
def oneSocketSender : MulticastSender where
  key := str "key"
  sockets := ⟨true, false, rfl⟩
  nonces _ := ⟨List.replicate k_nonceLen 0, length_zeroNonce⟩

/-- **An honest sender sends a packet its receivers reject**: a message that does not fit a packet,
    popped first, makes it send an empty one. -/
theorem multicast_sends_rejected :
    ∃ sent, oneSocketSender.run tagAead prefixedStreams (Vector.replicate 1200 0)
        [.ready [messageOf ⟨str "host", by decide⟩ longText]] = some sent ∧
      ∃ d ∈ sent.flatten, d.length = k_minPacketLen ∧
        ¬ MessagePacket.Accepted tagAead oneSocketSender.key d := by
  obtain ⟨sent, hrun, hsent⟩ := MulticastSender.run_sent prefixedStreams tagAead oneSocketSender
    (Vector.replicate 1200 0) [.ready [messageOf ⟨str "host", by decide⟩ longText]]
  refine ⟨sent, hrun, ?_⟩
  have hbig := payloadCapacity_lt_encodedSize_longText ⟨str "host", by decide⟩
  have hclosed : (Batcher.run (encodedSize prefixedStreams) payloadCapacity
      ([Wake.ready [messageOf ⟨str "host", by decide⟩ longText]].flatMap Wake.events)).closed =
        [[]] := by
    simp [Wake.events, Batcher.run, Batcher.step, Batcher.empty, Nat.not_le.mpr hbig]
  rw [hclosed] at hsent
  obtain ⟨out, rest, ⟨hne, nonce, hall⟩, -, rfl⟩ := List.forall₂_cons_right_iff.mp hsent
  obtain ⟨d, hd⟩ := List.exists_mem_of_ne_nil _ hne
  refine ⟨d, by simp [hd], ?_, ?_⟩
  · rw [hall d hd, MessagePacket.length_sealed]
    rfl
  · rw [hall d hd, MessagePacket.accepted_sealed_iff]
    simp

end Mclog
