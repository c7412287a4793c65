import Mclog.Equiv.Senders
import Mclog.TimedSenders

/-!
# How long a message waits in a packet

The loops on a clock are the loops without one (`state_head`).  A packet is sent when the wait times
out and when a message does not fit behind those in it, never because it is time to:
`_nextSendTime` is not read.  So a message is still unsent more than two seconds after it was added
exactly when messages keep arriving and all fit (`prompt_iff`).
-/

namespace Mclog

open General

namespace TimedSender

/-! ### The loop without a clock -/

section

variable (io : StreamIO) (sendPacket : SenderState → SenderState) (second : Nat)
variable (arrivals : Arrivals)

/-- How the wait ends, at the head of the loop. -/
def wake (s : TimedSender) : Wake :=
  match s.conditionTimedWait second arrivals with
  | some now => .ready (arrivals now)
  | none => .timedOut

theorem state_addAt (now : Nat) (s : TimedSender) (msg : Message) :
    (addAt io sendPacket second now s msg).state = addOrSend io sendPacket s.state msg := by
  simp only [addAt, addOrSend]
  split <;> rfl

theorem state_foldl_addAt (now : Nat) (s : TimedSender) (popped : List Message) :
    (popped.foldl (addAt io sendPacket second now) s).state =
      popped.foldl (addOrSend io sendPacket) s.state := by
  induction popped generalizing s with
  | nil => rfl
  | cons msg popped ih => rw [List.foldl_cons, List.foldl_cons, ih, state_addAt]

theorem state_timeOutAt (now : Nat) (s : TimedSender) :
    (timeOutAt sendPacket second now s).state = sendIfPayload sendPacket s.state := by
  unfold timeOutAt sendIfPayload
  split <;> rfl

/-- One iteration is one wake-up. -/
theorem state_iterate (s : TimedSender) :
    (iterate io sendPacket second arrivals s).state =
      wakeUp io sendPacket s.state (s.wake second arrivals) := by
  unfold iterate wake
  cases s.conditionTimedWait second arrivals with
  | some now => exact state_foldl_addAt io sendPacket second now s (arrivals now)
  | none => exact state_timeOutAt sendPacket second (s.now + second) s

theorem head_succ (n : Nat) (s : TimedSender) :
    head io sendPacket second arrivals (n + 1) s =
      iterate io sendPacket second arrivals (head io sendPacket second arrivals n s) :=
  Function.iterate_succ_apply' _ _ _

/-- **The loop on a clock is the loop without**, for the wake-ups that the clock gives. -/
theorem state_head (n : Nat) (s : TimedSender) :
    (head io sendPacket second arrivals n s).state =
      senderLoop io sendPacket s.state ((List.range n).map fun i =>
        (head io sendPacket second arrivals i s).wake second arrivals) := by
  induction n with
  | zero => rfl
  | succ n ih =>
    rw [head_succ, state_iterate, ih, List.range_succ, List.map_append, senderLoop, senderLoop,
      List.foldl_append]
    rfl

end

/-! ### What is in the packet -/

section

variable (io : StreamIO)

/-- The packet holds the messages that are said to be unsent. -/
structure Faithful (s : TimedSender) : Prop where
  size : s.state.pkt.buf.length = 1200
  holds : s.state.pkt.Holds (encodeBatch io (s.unsent.map Prod.snd))

/-- The length of the encodings of the messages in the packet. -/
def load (s : TimedSender) : Nat := Batcher.total (encodedSize io) (s.unsent.map Prod.snd)

/-- One more message in the packet. -/
theorem load_of_append {s s' : TimedSender} {now : Nat} {msg : Message}
    (h : s'.unsent = s.unsent ++ [(now, msg)]) : s'.load io = s.load io + encodedSize io msg := by
  simp [load, h, Batcher.total]

variable {io} {Emitted : List Str → List Message → Prop} {sendPacket : SenderState → SenderState}
  (hsend : SendsPacket io Emitted sendPacket) (second : Nat)

/-- Before the loop the packet is empty. -/
theorem exists_start (io : StreamIO) (buf : Vector UInt8 1200) (nextSendTime : Nat) :
    ∃ s, start buf nextSendTime = some s ∧ (s.now = 0 ∧ s.next = 0 ∧ s.unsent = []) ∧
      s.Faithful io := by
  have hmin : k_minPacketLen < buf.toList.length := by
    rw [Vector.length_toList]
    decide
  obtain ⟨pkt, hpkt⟩ := Option.isSome_iff_exists.mp ((MessagePacket.ofBuf_isSome_iff _).mpr hmin)
  obtain ⟨hholds, hbuf⟩ := MessagePacket.holds_ofBuf hpkt
  refine ⟨⟨0, 0, nextSendTime, ⟨pkt, []⟩, []⟩, ?_, ⟨rfl, rfl, rfl⟩, ?_, hholds⟩
  · rw [start, hpkt]
    rfl
  · rw [hbuf, Vector.length_toList]

include hsend

/-- One message popped: added behind the others if it fits, else alone on the next packet, if it
    fits that. -/
theorem addAt_spec {s : TimedSender} (h : s.Faithful io) (now : Nat) (msg : Message) :
    (addAt io sendPacket second now s msg).Faithful io ∧
      (addAt io sendPacket second now s msg).unsent =
        if s.load io + encodedSize io msg ≤ payloadCapacity then s.unsent ++ [(now, msg)]
        else if encodedSize io msg ≤ payloadCapacity then [(now, msg)] else [] := by
  have hcap : s.state.pkt.buf.length - k_minPacketLen = payloadCapacity := by rw [h.size]; rfl
  have hlen : (encodeBatch io (s.unsent.map Prod.snd)).length = s.load io :=
    length_encodeBatch io _
  by_cases hroom : s.load io + encodedSize io msg ≤ payloadCapacity
  · obtain ⟨hadd, hholds, hsize⟩ := h.holds.add_of_le (msg.write io)
      (by rw [hlen, hcap]; exact hroom)
    rw [if_pos hroom]
    simp only [addAt, hadd, Bool.not_true, Bool.false_eq_true, if_false]
    refine ⟨⟨by rw [hsize, h.size], ?_⟩, trivial⟩
    simpa using hholds
  · obtain ⟨hadd, hholds, hsize⟩ := h.holds.add_of_lt (msg.write io)
      (by rw [hlen, hcap]; simpa [encodedSize] using hroom)
    obtain ⟨hsize', hholds', -⟩ := hsend
      { s.state with pkt := (s.state.pkt.add (msg.write io)).2 } _ (by rw [hsize, h.size]) hholds
    rw [if_neg hroom]
    simp only [addAt, hadd, Bool.not_false, if_true]
    generalize sendPacket { s.state with pkt := (s.state.pkt.add (msg.write io)).2 } = sent at *
    have hcap' : sent.pkt.buf.length - k_minPacketLen = payloadCapacity := by rw [hsize']; rfl
    by_cases hfit : encodedSize io msg ≤ payloadCapacity
    · obtain ⟨hadd', hholds'', hsize''⟩ := hholds'.add_of_le (msg.write io)
        (by rw [hcap']; simpa [encodedSize] using hfit)
      rw [if_pos hfit, hadd', if_pos rfl]
      refine ⟨⟨by rw [hsize'', hsize'], ?_⟩, rfl⟩
      simpa using hholds''
    · obtain ⟨hadd', hholds'', hsize''⟩ := hholds'.add_of_lt (msg.write io)
        (by rw [hcap']; simpa [encodedSize] using hfit)
      rw [if_neg hfit, hadd', if_neg Bool.false_ne_true]
      exact ⟨⟨by rw [hsize'', hsize'], hholds''⟩, rfl⟩

/-- Once all messages in the packet were added at one tick, they are while this tick lasts. -/
theorem foldl_addAt_now {s : TimedSender} (h : s.Faithful io) (now : Nat) (popped : List Message)
    (hnow : ∀ e ∈ s.unsent, e.1 = now) :
    ∀ e ∈ (popped.foldl (addAt io sendPacket second now) s).unsent, e.1 = now := by
  induction popped generalizing s with
  | nil => exact hnow
  | cons msg popped ih =>
    obtain ⟨hfaithful, hunsent⟩ := addAt_spec hsend second h now msg
    refine ih hfaithful fun e he => ?_
    rw [hunsent] at he
    split_ifs at he
    · rcases List.mem_append.mp he with he | he
      · exact hnow e he
      · rw [List.mem_singleton.mp he]
    · rw [List.mem_singleton.mp he]
    · exact absurd he List.not_mem_nil

/-- **The messages popped at one tick** are added behind the others if all of them fit; if not, the
    others have been sent. -/
theorem foldl_addAt_spec {s : TimedSender} (h : s.Faithful io) (now : Nat)
    (popped : List Message) :
    (popped.foldl (addAt io sendPacket second now) s).Faithful io ∧
      (s.load io + Batcher.total (encodedSize io) popped ≤ payloadCapacity →
        (popped.foldl (addAt io sendPacket second now) s).unsent =
          s.unsent ++ popped.map fun msg => (now, msg)) ∧
      (payloadCapacity < s.load io + Batcher.total (encodedSize io) popped →
        s.load io ≤ payloadCapacity →
        ∀ e ∈ (popped.foldl (addAt io sendPacket second now) s).unsent, e.1 = now) := by
  induction popped generalizing s with
  | nil =>
    refine ⟨h, fun _ => (List.append_nil _).symm, fun hover hload => ?_⟩
    rw [Batcher.total_nil] at hover
    omega
  | cons msg popped ih =>
    obtain ⟨hfaithful, hunsent⟩ := addAt_spec hsend second h now msg
    obtain ⟨hlast, hfits, hover⟩ := ih hfaithful
    have htotal : Batcher.total (encodedSize io) (msg :: popped) =
        encodedSize io msg + Batcher.total (encodedSize io) popped := by simp [Batcher.total]
    rw [List.foldl_cons, htotal]
    refine ⟨hlast, fun hall => ?_, fun hsome hload => ?_⟩
    · rw [if_pos (by omega)] at hunsent
      have hload := load_of_append io hunsent
      rw [hfits (by omega), hunsent, List.append_assoc]
      rfl
    · by_cases hroom : s.load io + encodedSize io msg ≤ payloadCapacity
      · rw [if_pos hroom] at hunsent
        have hload := load_of_append io hunsent
        exact hover (by omega) (by omega)
      · -- The packet goes out with this message, and what is added after it is added now.
        rw [if_neg hroom] at hunsent
        refine foldl_addAt_now hsend second hfaithful now popped fun e he => ?_
        rw [hunsent] at he
        split_ifs at he
        · rw [List.mem_singleton.mp he]
        · exact absurd he List.not_mem_nil

/-- When the wait times out, nothing stays in the packet. -/
theorem timeOutAt_spec {s : TimedSender} (h : s.Faithful io) (now : Nat) :
    (timeOutAt sendPacket second now s).Faithful io ∧
      (timeOutAt sendPacket second now s).unsent = [] := by
  have hpay : s.state.pkt.hasPayload = true ↔ s.unsent.map Prod.snd ≠ [] :=
    h.holds.hasPayload.trans (encodeBatch_ne_nil_iff io _)
  unfold timeOutAt
  by_cases hnil : s.unsent = []
  · have hno : ¬ s.state.pkt.hasPayload = true := by
      rw [hpay, hnil]
      simp
    rw [if_neg hno]
    exact ⟨h, hnil⟩
  · have hyes : s.state.pkt.hasPayload = true := by
      rw [hpay]
      simpa using hnil
    obtain ⟨hsize, hholds, -⟩ := hsend s.state _ h.size h.holds
    rw [if_pos hyes]
    exact ⟨⟨hsize, hholds⟩, rfl⟩

theorem faithful_iterate (arrivals : Arrivals) {s : TimedSender} (h : s.Faithful io) :
    (iterate io sendPacket second arrivals s).Faithful io := by
  unfold iterate
  cases s.conditionTimedWait second arrivals with
  | some now =>
    obtain ⟨hsize, hholds⟩ := (foldl_addAt_spec hsend second h now (arrivals now)).1
    exact ⟨hsize, hholds⟩
  | none =>
    obtain ⟨hsize, hholds⟩ := (timeOutAt_spec hsend second h (s.now + second)).1
    exact ⟨hsize, hholds⟩

theorem faithful_head (arrivals : Arrivals) {s : TimedSender} (h : s.Faithful io) (n : Nat) :
    (head io sendPacket second arrivals n s).Faithful io := by
  induction n with
  | zero => exact h
  | succ n ih =>
    rw [head_succ]
    exact faithful_iterate hsend second arrivals ih

end

/-! ### How long it stays there -/

section

variable (io : StreamIO) (second : Nat)

/-- Every message in the packet was added at most two seconds ago. -/
def Prompt (s : TimedSender) : Prop := ∀ e ∈ s.unsent, s.now ≤ e.1 + 2 * second

/-- The next messages arrive within a second, and at tick `k`. -/
def NextArrival (arrivals : Arrivals) (s : TimedSender) (k : Nat) : Prop :=
  s.next ≤ k ∧ k ≤ s.now + second ∧ arrivals k ≠ [] ∧ ∀ j, s.next ≤ j → j < k → arrivals j = []

/-- If the next messages arrive within a second, but more than two seconds after a message in the
    packet was added, they do not all fit behind those in it. -/
def FillsInTime (arrivals : Arrivals) (s : TimedSender) : Prop :=
  ∀ k, NextArrival second arrivals s k → (∃ e ∈ s.unsent, e.1 + 2 * second < k) →
    payloadCapacity < s.load io + Batcher.total (encodedSize io) (arrivals k)

/-- What `ConditionTimedWait` finds is the next arrival. -/
theorem conditionTimedWait_eq_some_iff (arrivals : Arrivals) (s : TimedSender) (k : Nat) :
    s.conditionTimedWait second arrivals = some k ↔ NextArrival second arrivals s k := by
  unfold conditionTimedWait NextArrival
  rw [List.find?_range'_eq_some]
  simp only [decide_not, decide_eq_false_iff_not, List.mem_range'_1,
    Bool.not_eq_eq_eq_not, Bool.not_not, Bool.not_true, decide_eq_true_eq]
  constructor
  · rintro ⟨hne, ⟨hnext, hlt⟩, hbefore⟩
    exact ⟨hnext, by omega, hne, fun j hj hjk => hbefore j hj hjk⟩
  · rintro ⟨hnext, hle, hne, hbefore⟩
    exact ⟨hne, ⟨hnext, by omega⟩, fun j hj hjk => hbefore j hj hjk⟩

variable {io} {Emitted : List Str → List Message → Prop} {sendPacket : SenderState → SenderState}
  (hsend : SendsPacket io Emitted sendPacket)

include hsend

/-- **One iteration** leaves no message unsent for too long exactly when the packet fills in
    time. -/
theorem prompt_iterate_iff (arrivals : Arrivals) {s : TimedSender} (h : s.Faithful io) :
    Prompt second (iterate io sendPacket second arrivals s) ↔ FillsInTime io second arrivals s := by
  have hload : s.load io ≤ payloadCapacity := by
    have hlen := h.holds.length_le
    rw [length_encodeBatch, h.size] at hlen
    exact Nat.le_sub_of_add_le hlen
  unfold iterate
  cases hwait : s.conditionTimedWait second arrivals with
  | none =>
    obtain ⟨-, hunsent⟩ := timeOutAt_spec hsend second h (s.now + second)
    refine iff_of_true (fun e he => ?_) (fun k hk => ?_)
    · have he : e ∈ (timeOutAt sendPacket second (s.now + second) s).unsent := he
      rw [hunsent] at he
      exact absurd he List.not_mem_nil
    · rw [(conditionTimedWait_eq_some_iff second arrivals s k).mpr hk] at hwait
      exact absurd hwait (Option.some_ne_none k)
  | some now =>
    obtain ⟨-, hfits, hover⟩ := foldl_addAt_spec hsend second h now (arrivals now)
    have hnext := (conditionTimedWait_eq_some_iff second arrivals s now).mp hwait
    constructor
    · rintro hprompt k hk ⟨e, he, hold⟩
      obtain rfl : k = now := by
        rw [← conditionTimedWait_eq_some_iff, hwait] at hk
        exact (Option.some.inj hk).symm
      by_contra hroom
      have hin : e ∈ ((arrivals k).foldl (addAt io sendPacket second k) s).unsent := by
        rw [hfits (by omega)]
        exact List.mem_append_left _ he
      have hage : k ≤ e.1 + 2 * second := hprompt e hin
      omega
    · intro hfills e he
      show now ≤ e.1 + 2 * second
      have he : e ∈ ((arrivals now).foldl (addAt io sendPacket second now) s).unsent := he
      by_cases hroom : s.load io + Batcher.total (encodedSize io) (arrivals now) ≤ payloadCapacity
      · rw [hfits hroom, List.mem_append] at he
        rcases he with he | he
        · by_contra hold
          have := hfills now hnext ⟨e, he, by omega⟩
          omega
        · obtain ⟨msg, -, rfl⟩ := List.mem_map.mp he
          show now ≤ now + 2 * second
          omega
      · rw [hover (by omega) hload e he]
        omega

end

/-- What a sender sends. -/
theorem sends_sendPacket (io : StreamIO) (sender : Sender) :
    ∃ Emitted, SendsPacket io Emitted sender.sendPacket := by
  cases sender with
  | loopback => exact ⟨_, LoopbackSender.sendsPacket io⟩
  | multicast aead sender => exact ⟨_, MulticastSender.sendsPacket io aead sender⟩

/-- **How long a message waits.**  For every arrival pattern, at every return to the head of the loop
    of either sender each unsent message was added at most two seconds ago, exactly when the packet
    filled in time at each return before. -/
theorem prompt_iff (io : StreamIO) (sender : Sender) (second : Nat) (arrivals : Arrivals)
    (buf : Vector UInt8 1200) (nextSendTime : Nat) :
    ∃ s, start buf nextSendTime = some s ∧ ∀ N,
      (∀ n ≤ N, Prompt second (head io sender.sendPacket second arrivals n s)) ↔
        ∀ n < N, FillsInTime io second arrivals (head io sender.sendPacket second arrivals n s) := by
  obtain ⟨Emitted, hsend⟩ := sends_sendPacket io sender
  obtain ⟨s, hstart, ⟨-, -, hempty⟩, hfaithful⟩ := exists_start io buf nextSendTime
  refine ⟨s, hstart, fun N => ?_⟩
  have hstep := fun n => prompt_iterate_iff second hsend arrivals
    (faithful_head hsend second arrivals hfaithful n)
  simp only [← head_succ] at hstep
  constructor
  · intro hprompt n hn
    exact (hstep n).mp (hprompt (n + 1) hn)
  · intro hfills n hn
    cases n with
    | zero =>
      intro e he
      have he : e ∈ s.unsent := he
      rw [hempty] at he
      exact absurd he List.not_mem_nil
    | succ n => exact (hstep n).mpr (hfills n hn)

section

variable {io : StreamIO} {Emitted : List Str → List Message → Prop}
  {sendPacket : SenderState → SenderState} (hsend : SendsPacket io Emitted sendPacket)

include hsend

/-- A message at every tick, and what is in the packet while they fit. -/
theorem head_of_trickle (second : Nat) (hsecond : 0 < second) {s : TimedSender}
    (hstart : s.now = 0 ∧ s.next = 0 ∧ s.unsent = []) (hfaithful : s.Faithful io) (msg : Message)
    (n : Nat) (hfits : n * encodedSize io msg ≤ payloadCapacity) :
    let s' := head io sendPacket second (fun _ => [msg]) n s
    s'.now = n - 1 ∧ s'.next = n ∧ s'.unsent = (List.range n).map fun k => (k, msg) := by
  induction n with
  | zero => exact ⟨hstart.1, hstart.2.1, hstart.2.2⟩
  | succ n ih =>
    rw [Nat.succ_mul] at hfits
    obtain ⟨hnow, hnext, hunsent⟩ := ih (by omega)
    have hbefore := faithful_head hsend second (fun _ => [msg]) hfaithful n
    rw [head_succ]
    generalize head io sendPacket second (fun _ => [msg]) n s = s₁ at *
    have hwait : s₁.conditionTimedWait second (fun _ => [msg]) = some n := by
      rw [conditionTimedWait_eq_some_iff]
      refine ⟨hnext.le, by omega, List.cons_ne_nil _ _, fun j hj hjn => ?_⟩
      omega
    have hload : s₁.load io = n * encodedSize io msg := by
      rw [load, hunsent, List.map_map]
      simp [Batcher.total, Function.comp_def]
    obtain ⟨-, hall, -⟩ := foldl_addAt_spec hsend second hbefore n [msg]
    have hadded := hall (by
      rw [hload]
      simpa [Batcher.total] using hfits)
    unfold iterate
    rw [hwait]
    refine ⟨by simp, rfl, ?_⟩
    show ([msg].foldl (addAt io sendPacket second n) s₁).unsent = _
    rw [hadded, hunsent, List.range_succ, List.map_append]
    rfl

end

/-- **A steady trickle is not sent.**  With a message every half second, the first one is still in
    the packet of either sender after two and a half seconds. -/
theorem trickle_not_prompt :
    ∃ s, start (Vector.replicate 1200 0) 0 = some s ∧ ∀ sender : Sender,
      let s' := head prefixedStreams sender.sendPacket 2
        (fun _ => [messageOf ⟨str "host", by decide⟩ ⟨str "x", by decide⟩]) 6 s
      s'.now = 5 ∧ (∃ e ∈ s'.unsent, e.1 = 0) ∧ ¬ Prompt 2 s' := by
  obtain ⟨s, hstart, hzero, hfaithful⟩ := exists_start prefixedStreams (Vector.replicate 1200 0) 0
  refine ⟨s, hstart, fun sender => ?_⟩
  obtain ⟨Emitted, hsend⟩ := sends_sendPacket prefixedStreams sender
  obtain ⟨hnow, -, hunsent⟩ := head_of_trickle hsend 2 (by decide) hzero hfaithful
    (messageOf ⟨str "host", by decide⟩ ⟨str "x", by decide⟩) 6 (by decide)
  have hfirst : ∃ e ∈ (head prefixedStreams sender.sendPacket 2
      (fun _ => [messageOf ⟨str "host", by decide⟩ ⟨str "x", by decide⟩]) 6 s).unsent, e.1 = 0 := by
    rw [hunsent]
    exact ⟨_, List.mem_map_of_mem (List.mem_range.mpr (by decide)), rfl⟩
  refine ⟨hnow, hfirst, fun hprompt => ?_⟩
  obtain ⟨e, he, hadded⟩ := hfirst
  have hage := hprompt e he
  omega

end TimedSender

end Mclog
