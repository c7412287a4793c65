import Mclog.Config
import Mclog.KeyExchange

/-!
# The key request listener

`KeyRequestListener` keeps a session for each endpoint that asks for the multicast key.  `Run` waits
for datagrams without a time-out, handles what has come on the IPv4 and on the IPv6 socket, and then
clears the sessions that have expired.  Times are in seconds.
-/

namespace Mclog

open General

/-- `UdpEndpoint`. -/
inductive UdpEndpoint where
  | v4 (addr : Ipv4Address) (port : UInt16)
  | v6 (addr : Ipv6Address) (port : UInt16)
deriving DecidableEq

/-- A `KeyRequestClientState` of the listener, with the number of its key pair and the time of its
    last change. -/
structure ClientSession where
  keyPair : Nat
  client : KeyRequestClientState
  lastStateChangeTime : Int
deriving DecidableEq

/-- What `recvfrom` gives: its result, negative for an error, and the datagram; and how the calls
    made for it end, with the readings of the clock when a session is made and when one changes. -/
structure Received where
  recvrc : Int
  datagram : Datagram
  out : Outcome := {}
  time : Int
  changeTime : Int

/-- What ends the thread, and with it the process. -/
inductive ListenerStop where
  /-- `std::length_error`. -/
  | thrown
  /-- The assertion in the constructor of a packet. -/
  | aborted
deriving DecidableEq

namespace ClientSession

/-- `Success`. -/
def success (st : ClientSession) : Bool := st.client.state = .idSent

/-- `ProcessPacket`.  The state functions call `ChangeState` exactly where they change the state. -/
def processPacket (D : Deployment) (st : ClientSession) (r : Received) :
    Option (Bool × ClientSession × List Datagram) :=
  (st.client.processPacket D st.keyPair r.datagram r.recvrc.toNat r.out).map fun p =>
    (p.1, { st with
      client := p.2.1
      lastStateChangeTime :=
        if p.2.1.state = st.client.state then st.lastStateChangeTime else r.changeTime }, p.2.2)

end ClientSession

/-- `KeyRequestListener`, with the number of key pairs made so far. -/
structure KeyRequestListener where
  clients : UdpEndpoint → Option ClientSession := fun _ => none
  clientsDone : List (UdpEndpoint × ClientSession) := []
  keyPairs : Nat := 0

namespace KeyRequestListener

/-- The session made for a datagram, whether it is inserted or not. -/
def newClient (l : KeyRequestListener) (r : Received) : ClientSession :=
  ⟨l.keyPairs, {}, r.time⟩

/-- The session that `insert` finds or puts in. -/
def clientFor (l : KeyRequestListener) (src : UdpEndpoint) (r : Received) : ClientSession :=
  (l.clients src).getD (l.newClient r)

section

variable (D : Deployment)

/-- What both branches do with a datagram: the listener after it and the replies. -/
def handle (l : KeyRequestListener) (src : UdpEndpoint) (r : Received) :
    Except ListenerStop (KeyRequestListener × List (UdpEndpoint × Datagram)) :=
  match (l.clientFor src r).processPacket D r with
  | none => .error .aborted
  | some (rc, client, sent) =>
    let l := { l with keyPairs := l.keyPairs + 1 }
    let replies := sent.map fun d => (src, d)
    if rc && client.success then
      .ok ({ l with
        clients := Function.update l.clients src none
        clientsDone := l.clientsDone ++ [(src, client)] }, replies)
    else
      .ok ({ l with clients := Function.update l.clients src (some client) }, replies)

/-- The branch for the IPv4 socket.  A string is made of the buffer, whose length is the result of
    `recvfrom` as an unsigned number. -/
def ipv4Branch (l : KeyRequestListener) (src : UdpEndpoint) (r : Received) :
    Except ListenerStop (KeyRequestListener × List (UdpEndpoint × Datagram)) :=
  if r.recvrc ≠ 0 then
    if r.recvrc < 0 then .error .thrown else handle D l src r
  else
    .ok (l, [])

/-- The branch for the IPv6 socket. -/
def ipv6Branch (l : KeyRequestListener) (src : UdpEndpoint) (r : Received) :
    Except ListenerStop (KeyRequestListener × List (UdpEndpoint × Datagram)) :=
  if r.recvrc > 0 then
    if r.recvrc < 0 then .error .thrown else handle D l src r
  else
    .ok (l, [])

end

/-- `expired` of `ClearExpired`. -/
def expired (now : Int) (st : ClientSession) : Bool := st.lastStateChangeTime < now - 5

/-- `ClearExpired`. -/
def clearExpired (now : Int) (l : KeyRequestListener) : KeyRequestListener :=
  { l with
    clients := fun src => (l.clients src).filter fun st => !expired now st
    clientsDone := l.clientsDone.filter fun c => !expired now c.2 }

/-- One pass through the loop of `Run`: what `select` says is there, and the clock when the expired
    sessions are cleared. -/
structure Pass where
  v4 : Option ((Ipv4Address × UInt16) × Received) := none
  v6 : Option ((Ipv6Address × UInt16) × Received) := none
  clearTime : Int

section

variable (D : Deployment)

/-- The part of a pass for the IPv4 socket. -/
def passIpv4 (l : KeyRequestListener) (p : Pass) :
    Except ListenerStop (KeyRequestListener × List (UdpEndpoint × Datagram)) :=
  match p.v4 with
  | some (src, r) => ipv4Branch D l (.v4 src.1 src.2) r
  | none => .ok (l, [])

/-- The part for the IPv6 socket. -/
def passIpv6 (l : KeyRequestListener) (p : Pass) :
    Except ListenerStop (KeyRequestListener × List (UdpEndpoint × Datagram)) :=
  match p.v6 with
  | some (src, r) => ipv6Branch D l (.v6 src.1 src.2) r
  | none => .ok (l, [])

/-- The body of the loop. -/
def pass (l : KeyRequestListener) (p : Pass) :
    Except ListenerStop (KeyRequestListener × List (UdpEndpoint × Datagram)) := do
  let (l, replies) ← l.passIpv4 D p
  let (l, replies') ← l.passIpv6 D p
  pure (l.clearExpired p.clearTime, replies ++ replies')

/-- `Run` as a machine: passes in, replies out. -/
def machine : Machine KeyRequestListener Pass (UdpEndpoint × Datagram) := fun l p =>
  (l.pass D p).toOption

end

end KeyRequestListener

end Mclog
