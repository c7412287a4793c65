import Mclog.KeyRequestListener

/-!
# Asking for a multicast key

`KeyRequester::GetKey` sends a KX public key to the endpoint of a multicast stream and then waits
for datagrams, until its state is `Success` or `Failure`, a datagram is refused, or none comes for a
second.
-/

namespace Mclog

open General

/-- What one turn of the loop sees: `select` times out or fails, or `recvfrom` returns.  Each has
    the clock when the loop is left, if it is. -/
inductive GetKeyTurn where
  | silent (time : Int)
  | received (recvrc : Int) (d : Datagram) (out : Outcome) (time : Int)

/-- The `MulticastSourceKey` that `GetKey` returns. -/
structure RequestedKey where
  value : List SByte := []
  lastRequested : Int
  lastUpdated : Int := 0
deriving DecidableEq

/-- Where a `KeyRequester` is: `GetKey` has not been called, is in its loop, or has returned. -/
inductive GetKeyPhase where
  | idle
  | waiting
  | returned (key : RequestedKey)
deriving DecidableEq

/-- `KeyRequester`. -/
structure KeyRequester where
  state : KeyRequesterState := {}
  lastRequested : Int := 0
  phase : GetKeyPhase := .idle
deriving DecidableEq

namespace KeyRequester

/-- What follows the loop. -/
def finish (q : KeyRequester) (time : Int) : KeyRequester :=
  if q.state.currentState = .success then
    { q with phase := .returned ⟨q.state.mcastKey, q.lastRequested, time⟩ }
  else
    { q with phase := .returned ⟨[], q.lastRequested, 0⟩ }

/-- The condition of the loop. -/
def loopHead (q : KeyRequester) (time : Int) : KeyRequester :=
  if q.state.currentState ≠ .success ∧ q.state.currentState ≠ .failure then q else q.finish time

section

variable (D : Deployment) (n : Nat)

/-- Up to the loop: `socket` says whether there is a socket, and `sendTo` whether `sendto` sent the
    whole public key. -/
def open4 (q : KeyRequester) (now : Int) (socket sendTo : Bool) : KeyRequester × List Datagram :=
  let q := { q with lastRequested := now }
  if socket then
    if sendTo then
      ({ q with state := { q.state with currentState := .kxKeySent }, phase := .waiting },
        [⟨some (publicKey (.requester n)), none⟩])
    else
      ({ q with phase := .returned ⟨[], now, 0⟩ }, [])
  else
    ({ q with phase := .returned ⟨[], now, 0⟩ }, [])

/-- The body of the loop, and its condition after it.  `none` is the abort of a packet's
    constructor. -/
def turn (q : KeyRequester) : GetKeyTurn → Option (KeyRequester × List Datagram)
  | .silent time => some (q.finish time, [])
  | .received recvrc d out time =>
    if recvrc > 0 then
      (q.state.processPacket D n d recvrc.toNat out).map fun r =>
        let q := { q with state := r.2.1 }
        (if r.1 then q.loopHead time else q.finish time, r.2.2)
    else
      some (q, [])

/-- The loop as a machine: turns in, datagrams out.  Nothing happens after it. -/
def machine : Machine KeyRequester GetKeyTurn Datagram := fun q t =>
  match q.phase with
  | .waiting => q.turn D n t
  | .idle => some (q, [])
  | .returned _ => some (q, [])

/-- `GetKey4`, on what its turns see: the requester after them and all it sends. -/
def getKey4 (now : Int) (socket sendTo : Bool) (turns : List GetKeyTurn) :
    Option (KeyRequester × List Datagram) :=
  let (q, hello) := open4 n {} now socket sendTo
  ((machine D n).run q turns).map fun r => (r.1, hello ++ r.2)

/-- `GetKey6`, which has a socket of the other family. -/
def getKey6 (now : Int) (socket sendTo : Bool) (turns : List GetKeyTurn) :
    Option (KeyRequester × List Datagram) :=
  getKey4 D n now socket sendTo turns

/-- `GetKey`. -/
def getKey (servEndpoint : UdpEndpoint) (now : Int) (socket sendTo : Bool) (turns : List GetKeyTurn) :
    Option (KeyRequester × List Datagram) :=
  match servEndpoint with
  | .v4 _ _ => getKey4 D n now socket sendTo turns
  | .v6 _ _ => getKey6 D n now socket sendTo turns

end

end KeyRequester

end Mclog
