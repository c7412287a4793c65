import Mathlib.Logic.Function.Iterate
import Mclog.Senders

/-!
# The sender loops on a clock

`LoopbackSender::Run` and `MulticastSender::Run` with a clock of `second` ticks to the second.  Time
passes in `ConditionTimedWait` only, which returns as soon as there is a message in the queue, and
after a second without one.
-/

namespace Mclog

/-- The messages put on the queue of a sender at each tick. -/
abbrev Arrivals := Nat → List Message

/-- The two senders. -/
inductive Sender where
  | loopback
  | multicast (aead : Aead) (sender : MulticastSender)

/-- `SendPacket`. -/
def Sender.sendPacket : Sender → SenderState → SenderState
  | loopback => LoopbackSender.sendPacket
  | multicast aead sender => sender.sendPacket aead

/-- `Run` at the head of its loop, with the messages in the packet and the ticks at which they were
    added. -/
structure TimedSender where
  now : Nat
  /-- The first tick whose messages have not been popped. -/
  next : Nat
  nextSendTime : Nat
  state : SenderState
  unsent : List (Nat × Message)

namespace TimedSender

/-- Before the loop, with the bytes the buffer happens to hold. -/
def start (buf : Vector UInt8 1200) (nextSendTime : Nat) : Option TimedSender := do
  let pkt ← MessagePacket.ofBuf buf.toList
  pure ⟨0, 0, nextSendTime, ⟨pkt, []⟩, []⟩

section

variable (io : StreamIO) (sendPacket : SenderState → SenderState) (second : Nat)

/-- The body of the inner loop, for one message popped. -/
def addAt (now : Nat) (s : TimedSender) (msg : Message) : TimedSender :=
  let (added, pkt) := s.state.pkt.add (msg.write io)
  if !added then
    let state := sendPacket { s.state with pkt }
    let (added, pkt) := state.pkt.add (msg.write io)
    { s with
      nextSendTime := now + second
      state := { state with pkt }
      unsent := if added then [(now, msg)] else [] }
  else
    { s with
      state := { s.state with pkt }
      unsent := s.unsent ++ [(now, msg)] }

/-- The `else` branch of the outer loop. -/
def timeOutAt (now : Nat) (s : TimedSender) : TimedSender :=
  if s.state.pkt.hasPayload then
    { s with
      nextSendTime := now + second
      state := sendPacket s.state
      unsent := [] }
  else
    s

variable (arrivals : Arrivals)

/-- `ConditionTimedWait(1 s)`: the tick at which there is a message in the queue, if there is one
    within a second. -/
def conditionTimedWait (s : TimedSender) : Option Nat :=
  (List.range' s.next (s.now + second + 1 - s.next)).find? fun k => arrivals k ≠ []

/-- The body of the outer loop. -/
def iterate (s : TimedSender) : TimedSender :=
  match s.conditionTimedWait second arrivals with
  | some now =>
    { (arrivals now).foldl (addAt io sendPacket second now) s with now, next := now + 1 }
  | none =>
    let now := s.now + second
    { timeOutAt sendPacket second now s with now, next := now + 1 }

/-- The `n`-th return to the head of the loop. -/
def head (n : Nat) (s : TimedSender) : TimedSender := (iterate io sendPacket second arrivals)^[n] s

end

end TimedSender

end Mclog
