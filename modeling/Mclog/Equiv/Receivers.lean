import Mclog.Equiv.MulticastSource
import Mclog.KeyExchange

/-!
# Short datagrams

The constructor of `MessagePacket` asserts that its buffer has more than 40 bytes.  Three receivers
make packets of the datagrams they get, and none guards against every short one: a `MulticastSource`
with a key and a `KeyRequesterState` that has sent its id not at all, and a `KeyRequestClientState`
only against fewer than 40 bytes.  `receivers_abort_iff` says on which datagrams each aborts.
-/

namespace Mclog

open General

/-- A requester aborts on a datagram of at most 40 bytes that reaches it in `IDSent`. -/
theorem KeyRequesterState.processPacket_eq_none_iff (D : Deployment) (n : Nat)
    (s : KeyRequesterState) (d : Datagram) (buflen : Nat) (out : Outcome) :
    s.processPacket D n d buflen out = none ↔
      s.currentState = .idSent ∧ buflen ≤ k_minPacketLen := by
  unfold processPacket
  cases hstate : s.currentState with
  | idSent =>
    simp only [true_and]
    unfold idSent
    by_cases hlen : buflen ≤ k_minPacketLen
    · simp [hlen]
    · rw [if_neg hlen]
      constructor
      · intro h
        split at h <;> first | cases h | (split at h <;> cases h)
      · intro h
        exact absurd h hlen
  | initial => simp
  | kxKeySent => simp
  | success => simp
  | failure => simp

/-- A server session aborts on a datagram of exactly 40 bytes that reaches it in `KXKeySent`. -/
theorem KeyRequestClientState.processPacket_eq_none_iff (D : Deployment) (m : Nat)
    (s : KeyRequestClientState) (d : Datagram) (buflen : Nat) (out : Outcome) :
    s.processPacket D m d buflen out = none ↔
      s.state = .kxKeySent ∧ buflen = k_minPacketLen := by
  unfold processPacket
  cases hstate : s.state with
  | kxKeySent =>
    simp only [true_and]
    unfold kxKeySent
    by_cases hshort : buflen < k_minPacketLen
    · rw [if_pos hshort]
      simp only [reduceCtorEq, false_iff]
      omega
    · rw [if_neg hshort]
      by_cases hlen : buflen ≤ k_minPacketLen
      · simp only [if_pos hlen, true_iff]
        omega
      · rw [if_neg hlen]
        constructor
        · intro h
          split at h
          · simp only at h
            split_ifs at h
          all_goals cases h
        · intro h
          omega
  | initial => simp
  | idSent => simp
  | failure => simp

/-- **When a receiver aborts.**  A source never aborts while all its datagrams have more than 40
    bytes, whatever the query thread does; in the state it is in then it aborts exactly when it
    reads a key and its next datagram is shorter.  A requester aborts exactly on such a datagram in
    `IDSent`, and a server session exactly on one of 40 bytes in `KXKeySent`. -/
theorem receivers_abort_iff (io : StreamIO) (aead : Aead) (D : Deployment) :
    (∀ arrivals : List Arrival, (∀ a ∈ arrivals, k_minPacketLen < a.datagram.length) →
      ∃ s out, (MulticastSource.machine io aead).run .init arrivals = some (s, out) ∧
        ∀ a, s.processPacket io aead a = none ↔
          (s.arrive a).key.value ≠ [] ∧ a.datagram.length ≤ k_minPacketLen) ∧
    (∀ n (s : KeyRequesterState) d buflen out, s.processPacket D n d buflen out = none ↔
      s.currentState = .idSent ∧ buflen ≤ k_minPacketLen) ∧
    (∀ m (s : KeyRequestClientState) d buflen out, s.processPacket D m d buflen out = none ↔
      s.state = .kxKeySent ∧ buflen = k_minPacketLen) :=
  ⟨MulticastSource.run_of_long io aead, KeyRequesterState.processPacket_eq_none_iff D,
    KeyRequestClientState.processPacket_eq_none_iff D⟩

/-- A source does not abort on the sender's datagrams. -/
theorem receivers_abort_iff_ordinary (D : Deployment) :
    ∃ s out, (MulticastSource.machine prefixedStreams tagAead).run .init
        MulticastSource.commonArrivals = some (s, out) ∧
      ∀ a, s.processPacket prefixedStreams tagAead a = none ↔
        (s.arrive a).key.value ≠ [] ∧ a.datagram.length ≤ k_minPacketLen :=
  (receivers_abort_iff prefixedStreams tagAead D).1 MulticastSource.commonArrivals (by decide)

/-- The steps that bring requester 0 to `IDSent`. -/
def stepsToIDSent : List NetEvent :=
  [.start 0, .toRequester 0 ⟨some (publicKey (.server 0)), none⟩ 33 {}]

/-- The step that brings server session 0 to `KXKeySent`. -/
def stepsToKXKeySent : List NetEvent :=
  [.toServer 0 ⟨some (publicKey (.requester 0)), none⟩ 33 {}]

/-- **Short datagrams abort receivers.**  A source that has just got its key aborts on a datagram of
    one byte, and on one it buffered before; so does a requester in `IDSent`, and a server session
    in `KXKeySent` on one of 40 bytes. -/
theorem short_datagrams_abort :
    (MulticastSource.machine prefixedStreams tagAead).run .init
        [MulticastSource.arrivalAt MulticastSource.senderDatagram (seconds 10) [],
         MulticastSource.arrivalAt [0] (seconds 11)
          [.store { value := MulticastSource.senderKey }, .setDone]] = none ∧
      (MulticastSource.machine prefixedStreams tagAead).run .init
        [MulticastSource.arrivalAt [0] (seconds 10) [],
         MulticastSource.arrivalAt MulticastSource.senderDatagram (seconds 11)
          [.store { value := MulticastSource.senderKey }, .setDone]] = none ∧
      ∀ D : Deployment,
        (stepsToIDSent.foldlM (Net.step D) .init).isSome ∧
        (stepsToIDSent ++ [NetEvent.toRequester 0 ⟨none, none⟩ 1 {}]).foldlM (Net.step D) .init =
          none ∧
        (stepsToKXKeySent.foldlM (Net.step D) .init).isSome ∧
        (stepsToKXKeySent ++ [NetEvent.toServer 0 ⟨none, none⟩ 40 {}]).foldlM (Net.step D) .init =
          none :=
  ⟨rfl, rfl, fun _ => ⟨rfl, rfl, rfl, rfl⟩⟩

end Mclog
