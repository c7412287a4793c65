import Mclog.Message
import Mclog.MessagePacket

/-!
# The sender loops and the loopback receiver

`LoopbackSender::Run` and `MulticastSender::Run` pop messages off a queue, pack them and send a
packet when the next message does not fit or when the queue stayed empty for a second.  The two
loops differ in how a packet is sent and in the flush at the end.  `LoopbackReceiver::Run` reads
the messages of each datagram until one does not decode.
-/

namespace Mclog

/-! ### The loop both senders run -/

/-- How one `ConditionTimedWait` of the loop ends: the queue is ready, and the messages are popped
    until it is empty, or the wait timed out. -/
inductive Wake where
  | ready (popped : List Message)
  | timedOut
deriving DecidableEq

/-- The packet being filled, and for each packet sent so far the datagrams passed to `sendto`. -/
structure SenderState where
  pkt : MessagePacket
  sent : List (List Str)

section

variable (io : StreamIO) (sendPacket : SenderState → SenderState)

/-- The body of the inner loop, for one message popped. -/
def addOrSend (s : SenderState) (msg : Message) : SenderState :=
  let (added, pkt) := s.pkt.add (msg.write io)
  if !added then
    let s := sendPacket { s with pkt := pkt }
    { s with pkt := (s.pkt.add (msg.write io)).2 }
  else
    { s with pkt := pkt }

/-- What is sent when there is nothing to add. -/
def sendIfPayload (s : SenderState) : SenderState :=
  if s.pkt.hasPayload then sendPacket s else s

/-- The body of the outer loop. -/
def wakeUp (s : SenderState) : Wake → SenderState
  | .ready popped => popped.foldl (addOrSend io sendPacket) s
  | .timedOut => sendIfPayload sendPacket s

/-- The outer loop. -/
def senderLoop (s : SenderState) (wakes : List Wake) : SenderState :=
  wakes.foldl (wakeUp io sendPacket) s

end

/-! ### Loopback -/

/-- `LoopbackSender::SendPacket`. -/
def LoopbackSender.sendPacket (s : SenderState) : SenderState :=
  { pkt := s.pkt.reset, sent := s.sent ++ [[s.pkt.sendTo]] }

/-- `LoopbackSender::Run`, with the bytes its buffer happens to hold. -/
def LoopbackSender.run (io : StreamIO) (buf : Vector UInt8 1200) (wakes : List Wake) :
    Option (List (List Str)) := do
  let pkt ← MessagePacket.ofBuf buf.toList
  let s := senderLoop io sendPacket ⟨pkt, []⟩ wakes
  pure (sendIfPayload sendPacket s).sent

/-- The receiver's loop over the datagrams that arrive, with the buffer they are received in: the
    messages handed to each sink.  `none` is an abort. -/
def LoopbackReceiver.runLoop (io : StreamIO) : Str → List Str → Option (List Message)
  | _, [] => some []
  | buf, datagram :: datagrams => do
    let pkt ← MessagePacket.ofBuf buf
    let (rc, pkt) := pkt.recvFrom (some datagram)
    let msgs := if rc > 0 then Message.readAll io pkt.payload else []
    let later ← runLoop io pkt.buf datagrams
    pure (msgs ++ later)

/-- `LoopbackReceiver::Run`. -/
def LoopbackReceiver.run (io : StreamIO) (buf : Vector UInt8 1500) (datagrams : List Str) :
    Option (List Message) :=
  LoopbackReceiver.runLoop io buf.toList datagrams

/-! ### Multicast -/

/-- The sockets of a running sender.  It runs only if it has one to send on. -/
structure Sockets where
  fd : Bool
  fd6 : Bool
  one_open : fd || fd6

/-- What a `MulticastSender` sends with. -/
structure MulticastSender where
  key : Str
  sockets : Sockets
  /-- The nonce drawn for each packet. -/
  nonces : Nat → Nonce

namespace MulticastSender

variable (aead : Aead) (sender : MulticastSender)

/-- `MulticastSender::SendPacket`. -/
def sendPacket (s : SenderState) : SenderState :=
  let (encrypted, pkt) := s.pkt.encrypt aead sender.key (sender.nonces s.sent.length)
  let datagrams :=
    if encrypted then
      (if sender.sockets.fd then [pkt.sendTo] else []) ++
        (if sender.sockets.fd6 then [pkt.sendTo] else [])
    else
      []
  { pkt := pkt.reset, sent := s.sent ++ [datagrams] }

/-- `MulticastSender::Run`, with the bytes its buffer happens to hold. -/
def run (io : StreamIO) (buf : Vector UInt8 1200) (wakes : List Wake) :
    Option (List (List Str)) := do
  let pkt ← MessagePacket.ofBuf buf.toList
  pure (senderLoop io (sender.sendPacket aead) ⟨pkt, []⟩ wakes).sent

end MulticastSender

end Mclog
