import Mclog.KeyRequester

/-!
# Key exchanges on a network

Any number of `KeyRequester`s, the key request listeners of any number of mclogd processes, and a
network that delivers what it likes.  A pass of a listener is a datagram on the IPv4 socket, one on
the IPv6 socket and `ClearExpired` (`pass_eq`); here these are steps of their own, and the requesters
and other listeners act between them.
-/

namespace Mclog

open General

/-- What `Run` does with a datagram from the endpoint, on the socket of its family. -/
def KeyRequestListener.branch (D : Deployment) (l : KeyRequestListener) (src : UdpEndpoint)
    (r : Received) :
    Except ListenerStop (KeyRequestListener × List (UdpEndpoint × Datagram)) :=
  match src with
  | .v4 addr port => l.ipv4Branch D (.v4 addr port) r
  | .v6 addr port => l.ipv6Branch D (.v6 addr port) r

/-- What the socket of one family may have received, as `branch` takes it. -/
def KeyRequestListener.optionalBranch (D : Deployment) (l : KeyRequestListener)
    (input : Option (UdpEndpoint × Received)) :
    Except ListenerStop (KeyRequestListener × List (UdpEndpoint × Datagram)) :=
  match input with
  | some (src, r) => l.branch D src r
  | none => .ok (l, [])

/-- A pass is its datagrams and `ClearExpired`. -/
theorem KeyRequestListener.pass_eq (D : Deployment) (l : KeyRequestListener) (p : Pass) :
    l.pass D p = (do
      let (l, replies) ← l.optionalBranch D (p.v4.map fun i => (.v4 i.1.1 i.1.2, i.2))
      let (l, replies') ← l.optionalBranch D (p.v6.map fun i => (.v6 i.1.1 i.1.2, i.2))
      pure (l.clearExpired p.clearTime, replies ++ replies')) := by
  unfold pass passIpv4 passIpv6
  cases p.v4 <;> cases p.v6 <;> rfl

/-- The requesters, the listener of each process, the number of key pairs that listeners have made,
    and every datagram sent so far. -/
structure KeyNetwork where
  requesters : Nat → KeyRequester
  listeners : Nat → KeyRequestListener
  keyPairs : Nat
  sent : List Transmission

/-- A step: `GetKey` is called, a requester takes a turn of its loop, or a listener gets a datagram
    or clears its expired sessions. -/
inductive KeyEvent where
  | getKey (n : Nat) (now : Int) (socket sendTo : Bool)
  | turn (n : Nat) (t : GetKeyTurn)
  | received (process : Nat) (src : UdpEndpoint) (r : Received)
  | clearExpired (process : Nat) (now : Int)

namespace KeyNetwork

/-- Before any call. -/
def init : KeyNetwork := ⟨fun _ => {}, fun _ => {}, 0, []⟩

/-- The listener of a process, about to make the next key pair. -/
def listener (net : KeyNetwork) (process : Nat) : KeyRequestListener :=
  { net.listeners process with keyPairs := net.keyPairs }

/-- One step; `none` when it cannot be taken, the end of a process included. -/
def step (D : Deployment) (net : KeyNetwork) : KeyEvent → Option KeyNetwork
  | .getKey n now socket sendTo =>
    if (net.requesters n).phase = .idle then
      let (q, sent) := (net.requesters n).open4 n now socket sendTo
      some { net with
        requesters := Function.update net.requesters n q
        sent := net.sent ++ sent.map fun d => ⟨.requester n, d⟩ }
    else
      none
  | .turn n t =>
    (KeyRequester.machine D n (net.requesters n) t).map fun r =>
      { net with
        requesters := Function.update net.requesters n r.1
        sent := net.sent ++ r.2.map fun d => ⟨.requester n, d⟩ }
  | .received process src r =>
    match (net.listener process).branch D src r with
    | .ok (l, replies) =>
      some { net with
        listeners := Function.update net.listeners process l
        keyPairs := l.keyPairs
        sent := net.sent ++ replies.map fun reply =>
          ⟨.server ((net.listener process).clientFor src r).keyPair, reply.2⟩ }
    | .error _ => none
  | .clearExpired process now =>
    some { net with
      listeners :=
        Function.update net.listeners process ((net.listeners process).clearExpired now) }

/-- The steps of a network under attack.  Key pairs are numbered as they are made, and the deployment
    says whose each is. -/
def Admissible (D : Deployment) (net : KeyNetwork) : KeyEvent → Prop
  | .getKey _ _ _ _ => True
  | .turn _ (.silent _) => True
  | .turn _ (.received recvrc d _ _) => recvrc > 0 → Injectable net.sent d
  | .received process _ r =>
    r.recvrc > 0 → Injectable net.sent r.datagram ∧ D.serverProcess net.keyPairs = process
  | .clearExpired _ _ => True

/-- The states of a network under attack, if every step also satisfies `ok`. -/
def Reachable (D : Deployment) (ok : KeyNetwork → KeyEvent → Prop) : KeyNetwork → Prop :=
  General.Reachable (step D) (fun net e => net.Admissible D e ∧ ok net e) .init

end KeyNetwork

end Mclog
