import Mclog.Daemon
import Mclog.General.Family
import Mclog.KeyRequestListener
import Mclog.MulticastSource

/-!
# The multicast receiver

`MulticastSources` keeps a source for each endpoint that datagrams come from.  The thread of
`MulticastReceiver` gives it the datagrams it reads from its two sockets; it keeps its sources when it
is restarted.
-/

namespace Mclog

open General

/-! ### The sources -/

/-- `MulticastSources`: the map from endpoints to sources. -/
abbrev MulticastSources := UdpEndpoint → Option MulticastSource

namespace MulticastSources

/-- The constructor. -/
def empty : MulticastSources := fun _ => none

/-- `src.second.LastReceiveTime() < expireTime`. -/
def expired (now : Int) (src : MulticastSource) : Bool := src.lastReceiveTime < now - seconds 20

/-- `ClearOld`. -/
def clearOld (now : Int) (sources : MulticastSources) : MulticastSources := fun srcEndpoint =>
  (sources srcEndpoint).filter fun src => !expired now src

section

variable (io : StreamIO) (aead : Aead)

/-- `ProcessPacket`: the sources after it, and the messages handed to each sink with the endpoint they
    came from.  `clearTime` is the clock when `ClearOld` reads it, if it is called. -/
def processPacket (sources : MulticastSources) (srcEndpoint : UdpEndpoint) (a : Arrival)
    (clearTime : Int) : Option (MulticastSources × List (UdpEndpoint × Message)) :=
  match sources srcEndpoint with
  | some src =>
    (src.processPacket io aead a).map fun r =>
      (Function.update sources srcEndpoint (some r.2.1), r.2.2.map fun msg => (srcEndpoint, msg))
  | none =>
    (MulticastSource.init.processPacket io aead a).map fun r =>
      (clearOld clearTime (Function.update sources srcEndpoint (some r.2.1)),
        r.2.2.map fun msg => (srcEndpoint, msg))

end

end MulticastSources

/-! ### The thread -/

/-- What `recvfrom` gives: whether it fails, the address and the port the datagram is from, the
    datagram as it was sent with what happens while it is processed, and the clock when `ClearOld`
    reads it, if it is called. -/
structure ReceivedFrom (α : Type) where
  fails : Bool := false
  fromAddr : α
  port : UInt16
  arrival : Arrival
  clearTime : Int

namespace ReceivedFrom

variable {α : Type}

/-- The bytes that fit into `buf`. -/
def buf (r : ReceivedFrom α) : Str := r.arrival.datagram.take 1500

/-- `recvrc`. -/
def recvrc (r : ReceivedFrom α) : Int := if r.fails then -1 else r.buf.length

/-- The arrival of what is in `buf`. -/
def arrived (r : ReceivedFrom α) : Arrival := { r.arrival with datagram := r.buf }

end ReceivedFrom

/-- What `select` says is there. -/
structure MulticastReady where
  stop : Bool := false
  v4 : Option (ReceivedFrom Ipv4Address) := none
  v6 : Option (ReceivedFrom Ipv6Address) := none

/-- What happens to a `MulticastReceiver`: `select` returns in its thread, or `Close` or `Restart` is
    called. -/
inductive MulticastReceiverStep where
  | select (ready : MulticastReady)
  | close
  | restart (calls : Mclogd.StartCalls) (cfg : Config)

/-- `MulticastReceiver` with its sources. -/
structure MulticastReceiverThread extends Mclogd.MulticastReceiver where
  sources : MulticastSources := .empty

namespace MulticastReceiverThread

/-- After the constructor and `Open`. -/
def start (calls : Mclogd.StartCalls) (cfg : Config) (acceptLocal : Bool) :
    MulticastReceiverThread where
  toMulticastReceiver := (({} : Mclogd.MulticastReceiver).open calls cfg acceptLocal).2

section

variable (io : StreamIO) (aead : Aead)

/-- A branch of `Run` for one of the sockets, `fd` being whether it is open, `intfAddr` the address
    whose datagrams are local, and `endPoint` what is made of an address and a port. -/
def branch {α : Type} [DecidableEq α] (fd : Bool) (intfAddr : α) (endPoint : α → UInt16 → UdpEndpoint)
    (received : Option (ReceivedFrom α)) (mr : MulticastReceiverThread) :
    Option (MulticastReceiverThread × List (UdpEndpoint × Message)) :=
  match received with
  | some r =>
    if fd && 0 < r.recvrc && (mr.acceptLocal || r.fromAddr ≠ intfAddr) then
      (mr.sources.processPacket io aead (endPoint r.fromAddr r.port) r.arrived r.clearTime).map
        fun p => ({ mr with sources := p.1 }, p.2)
    else
      some (mr, [])
  | none => some (mr, [])

/-- The branch for the IPv4 socket. -/
def ipv4Branch (mr : MulticastReceiverThread) (received : Option (ReceivedFrom Ipv4Address)) :
    Option (MulticastReceiverThread × List (UdpEndpoint × Message)) :=
  mr.branch io aead mr.fd mr.config.mcast.intfAddr .v4 received

/-- The branch for the IPv6 socket. -/
def ipv6Branch (mr : MulticastReceiverThread) (received : Option (ReceivedFrom Ipv6Address)) :
    Option (MulticastReceiverThread × List (UdpEndpoint × Message)) :=
  mr.branch io aead mr.fd6 mr.config.mcast.intfAddr6 .v6 received

/-- What the loop of `Run` does when `select` returns.  With the stop pipe readable it ends, whatever
    else is there. -/
def pass (mr : MulticastReceiverThread) (ready : MulticastReady) :
    Option (MulticastReceiverThread × List (UdpEndpoint × Message)) :=
  if ready.stop then
    some ({ mr with thread := mr.thread.stop }, [])
  else do
    let (mr, msgs) ← mr.ipv4Branch io aead ready.v4
    let (mr, msgs') ← mr.ipv6Branch io aead ready.v6
    pure (mr, msgs ++ msgs')

/-- The receiver as a machine: what happens to it in, messages out, each with the endpoint it came
    from.  `none` is an abort. -/
def machine : Machine MulticastReceiverThread MulticastReceiverStep (UdpEndpoint × Message) :=
  fun mr => fun
    | .select ready => if mr.thread.running then mr.pass io aead ready else some (mr, [])
    | .close => some ({ mr with toMulticastReceiver := mr.toMulticastReceiver.close }, [])
    | .restart calls cfg =>
      some ({ mr with toMulticastReceiver := (mr.toMulticastReceiver.restart calls cfg).2 }, [])

end

end MulticastReceiverThread

end Mclog
