import Mathlib.Data.Sym.Sym2
import Mclog.General.Machine
import Mclog.MessagePacket

/-!
# The key exchange

`KeyRequesterState` asks the sender of a multicast stream for its key, and `KeyRequestClientState`
answers on the sender's side.  The cryptography is symbolic: a public key is 32 bytes of its own, a
signature is the pair of who signed and what, and a packet opens only under the key it was sealed
with.  A network attacker reads everything that is sent and delivers whatever it can build.
-/

namespace Mclog

/-! ### Symbolic bytes, keys and packets -/

/-- The sessions, each with a KX key pair of its own. -/
inductive Party where
  | requester (n : Nat)
  | server (m : Nat)
deriving DecidableEq

/-- A byte of a string: a literal, a byte of a KX public key, or a byte of the multicast key of an
    mclogd process. -/
inductive SByte where
  | lit (b : UInt8)
  | kx (p : Party) (i : Fin 32)
  | mcast (process : Nat) (i : Fin 32)
deriving DecidableEq

/-- The owner of an Ed25519 identity key: an honest host, or the attacker. -/
inductive Identity where
  | honest (host : Nat)
  | attacker (i : Nat)
deriving DecidableEq

/-- A signed message: the signer and the content, which `Signer::Open` gives back. -/
structure Signed where
  signer : Identity
  content : List SByte
deriving DecidableEq

/-- What `SharedKey` returns: the key of two genuine key pairs, the key of a session and 32 bytes
    that are no honest session's public key, or anything else. -/
inductive Key where
  | pair (parties : Sym2 Party)
  | weak (p : Party) (theirKX : List SByte)
  | other (n : Nat)

-- The derived instance does not evaluate on unordered pairs written in different orders.
instance : DecidableEq Key
  | .pair ps, .pair qs => decidable_of_iff (ps = qs) (by simp)
  | .weak p kx, .weak q kx' => decidable_of_iff (p = q ∧ kx = kx') (by simp)
  | .other m, .other n => decidable_of_iff (m = n) (by simp)
  | .pair _, .weak _ _ => .isFalse (by simp)
  | .pair _, .other _ => .isFalse (by simp)
  | .weak _ _, .pair _ => .isFalse (by simp)
  | .weak _ _, .other _ => .isFalse (by simp)
  | .other _, .pair _ => .isFalse (by simp)
  | .other _, .weak _ _ => .isFalse (by simp)

/-- What a reader finds in a packet that opens: an id and a signed message, which may be junk; an id
    only; or not even that. -/
inductive Payload where
  | idAndSig (id : Str) (signedMsg : Option Signed)
  | idOnly (id : Str)
  | unreadable
deriving DecidableEq

/-- A datagram: the `ShortString` its bytes start with, if any, and the key it is sealed with and
    its payload, if it is a packet. -/
structure Datagram where
  asShortString : Option (List SByte)
  sealedWith : Option (Key × Payload)
deriving DecidableEq

/-- `KXKeyPair::PublicKey`, 32 bytes. -/
def publicKey (p : Party) : List SByte := (List.finRange 32).map (.kx p)

/-- The session a string is the public key of. -/
def ownerOf (kx : List SByte) : Option Party :=
  match kx with
  | .kx p _ :: _ => if kx = publicKey p then some p else none
  | _ => none

/-- `crypto_kx_SESSIONKEYBYTES`. -/
def crypto_kx_SESSIONKEYBYTES : Nat := 32

/-- The multicast key of an mclogd process, `MulticastSender::_key`. -/
def processKey (process : Nat) : List SByte := (List.finRange 32).map (.mcast process)

/-- Which host and process each session runs on, and what its key directory holds. -/
structure Deployment where
  requesterHost : Nat → Nat
  serverProcess : Nat → Nat
  processHost : Nat → Nat
  /-- The id in a host's key stash. -/
  id : Nat → Str
  /-- `KnownKeys::Find` of a host. -/
  knownKeys : Nat → Str → Option Identity
  /-- `SharedKey` on a string that has not 32 bytes. -/
  oddSharedKey : Party → List SByte → Key

namespace Deployment

variable (D : Deployment)

/-- The host of a server session. -/
def serverHost (m : Nat) : Nat := D.processHost (D.serverProcess m)

/-- `KXKeyPair::SharedKey`. -/
def sharedKey (p : Party) (theirKX : List SByte) : Key :=
  match ownerOf theirKX with
  | some q => .pair s(p, q)
  | none => if theirKX.length = 32 then .weak p theirKX else D.oddSharedKey p theirKX

end Deployment

/-- How the calls of one step end: reading the key stash, signing and sending; and how the bytes of
    an encrypted packet would read as a `ShortString`. -/
structure Outcome where
  stashGet : Bool := true
  sign : Bool := true
  sendTo : Bool := true
  cipherText : Option (List UInt8) := none

/-- The packet with an id and a signature that both sides send. -/
def idAndSigDatagram (out : Outcome) (key : Option Key) (id : Str) (signedMsg : Signed) : Datagram where
  asShortString := out.cipherText.map fun bs => bs.map .lit
  sealedWith := key.map fun k => (k, .idAndSig id (some signedMsg))

/-- `Decrypt`, then the reader of its payload: what is found in a packet of `buflen` bytes. -/
def openDatagram (d : Datagram) (buflen : Nat) (key : Option Key) : Option Payload :=
  match d.sealedWith with
  | some (k, payload) => if k_minPacketLen < buflen ∧ some k = key then some payload else none
  | none => none

/-! ### The requester -/

/-- The state functions of a requester. -/
inductive RequesterPhase where
  | initial
  | kxKeySent
  | idSent
  | success
  | failure
deriving DecidableEq

/-- `KeyRequesterState`. -/
structure KeyRequesterState where
  currentState : RequesterPhase := .initial
  theirKX : List SByte := []
  sharedKey : Option Key := none
  theirId : Str := []
  mcastKey : List SByte := []
deriving DecidableEq

namespace KeyRequesterState

variable (D : Deployment) (n : Nat)

/-- `SendIdAndSig`: its result and the datagrams sent. -/
def sendIdAndSig (s : KeyRequesterState) (out : Outcome) : Bool × List Datagram :=
  let host := D.requesterHost n
  if out.stashGet then
    if out.sign then
      if out.sendTo then
        (true, [idAndSigDatagram out s.sharedKey (D.id host) ⟨.honest host, s.theirKX⟩])
      else
        (false, [])
    else
      (false, [])
  else
    (false, [])

/-- The state function `KXKeySent`. -/
def kxKeySent (s : KeyRequesterState) (d : Datagram) (out : Outcome) :
    Bool × KeyRequesterState × List Datagram :=
  match d.asShortString with
  | some theirKX =>
    let s := { s with theirKX, sharedKey := some (D.sharedKey (.requester n) theirKX) }
    let (sent, datagrams) := s.sendIdAndSig D n out
    if sent then (true, { s with currentState := .idSent }, datagrams)
    else (false, { s with currentState := .failure }, datagrams)
  | none => (false, { s with currentState := .failure }, [])

/-- `IsValidUser`: the multicast key it stores, if it returns true. -/
def isValidUser (id : Str) (signedMsg : Option Signed) : Option (List SByte) :=
  match D.knownKeys (D.requesterHost n) id, signedMsg with
  | some key, some signedMsg =>
    if signedMsg.signer = key then
      let origMsg := signedMsg.content
      let own := publicKey (.requester n)
      if origMsg.length = own.length + crypto_kx_SESSIONKEYBYTES then
        if origMsg.take own.length = own then some (origMsg.drop own.length) else none
      else
        none
    else
      none
  | _, _ => none

/-- The state function `IDSent`.  `none` is the abort of the packet's constructor. -/
def idSent (s : KeyRequesterState) (d : Datagram) (buflen : Nat) :
    Option (Bool × KeyRequesterState × List Datagram) :=
  if buflen ≤ k_minPacketLen then
    none
  else
    match openDatagram d buflen s.sharedKey with
    | some (.idAndSig id signedMsg) =>
      match isValidUser D n id signedMsg with
      | some mcastKey =>
        some (true, { s with theirId := id, mcastKey, currentState := .success }, [])
      | none => some (false, { s with theirId := id, currentState := .failure }, [])
    | some (.idOnly id) => some (false, { s with theirId := id, currentState := .failure }, [])
    | some .unreadable => some (false, { s with currentState := .failure }, [])
    | none => some (false, { s with currentState := .failure }, [])

/-- `ProcessPacket`: the result, the state after it and the datagrams sent. -/
def processPacket (s : KeyRequesterState) (d : Datagram) (buflen : Nat) (out : Outcome) :
    Option (Bool × KeyRequesterState × List Datagram) :=
  match s.currentState with
  | .initial => some (false, s, [])
  | .kxKeySent => some (s.kxKeySent D n d out)
  | .idSent => s.idSent D n d buflen
  | .success => some (true, s, [])
  | .failure => some (false, s, [])

end KeyRequesterState

/-! ### The server -/

/-- The state functions of a server session. -/
inductive ClientPhase where
  | initial
  | kxKeySent
  | idSent
  | failure
deriving DecidableEq

/-- `KeyRequestClientState`. -/
structure KeyRequestClientState where
  state : ClientPhase := .initial
  theirKX : List SByte := []
  sharedKey : Option Key := none
  theirId : Str := []
deriving DecidableEq

namespace KeyRequestClientState

variable (D : Deployment) (m : Nat)

/-- The state function `Initial`. -/
def initial (s : KeyRequestClientState) (d : Datagram) (out : Outcome) :
    Bool × KeyRequestClientState × List Datagram :=
  match d.asShortString with
  | some theirKX =>
    let s := { s with theirKX }
    if theirKX.length = 32 then
      let s := { s with sharedKey := some (D.sharedKey (.server m) theirKX) }
      if out.sendTo then
        (true, { s with state := .kxKeySent }, [⟨some (publicKey (.server m)), none⟩])
      else
        (false, { s with state := .failure }, [])
    else
      (false, { s with state := .failure }, [])
  | none => (false, { s with state := .failure }, [])

/-- `SendIdAndSig`: its result and the datagrams sent. -/
def sendIdAndSig (s : KeyRequestClientState) (out : Outcome) : Bool × List Datagram :=
  let host := D.serverHost m
  if out.stashGet then
    if out.sign then
      if out.sendTo then
        (true, [idAndSigDatagram out s.sharedKey (D.id host)
          ⟨.honest host, s.theirKX ++ processKey (D.serverProcess m)⟩])
      else
        (false, [])
    else
      (false, [])
  else
    (false, [])

/-- `IsValidUser`. -/
def isValidUser (id : Str) (signedMsg : Option Signed) : Bool :=
  match D.knownKeys (D.serverHost m) id, signedMsg with
  | some key, some signedMsg =>
    if signedMsg.signer = key then signedMsg.content = publicKey (.server m) else false
  | _, _ => false

/-- The state function `KXKeySent`.  `none` is the abort of the packet's constructor, which the
    guard before it leaves possible at exactly `k_minPacketLen` bytes. -/
def kxKeySent (s : KeyRequestClientState) (d : Datagram) (buflen : Nat) (out : Outcome) :
    Option (Bool × KeyRequestClientState × List Datagram) :=
  if buflen < k_minPacketLen then
    some (false, { s with state := .failure }, [])
  else if buflen ≤ k_minPacketLen then
    none
  else
    match openDatagram d buflen s.sharedKey with
    | some (.idAndSig id signedMsg) =>
      let s := { s with theirId := id }
      if isValidUser D m id signedMsg then
        let (sent, datagrams) := s.sendIdAndSig D m out
        if sent then some (true, { s with state := .idSent }, datagrams)
        else some (false, s, datagrams)
      else
        some (false, { s with state := .failure }, [])
    | some (.idOnly id) => some (false, { s with theirId := id }, [])
    | some .unreadable => some (false, s, [])
    | none => some (false, s, [])

/-- `ProcessPacket`: the result, the state after it and the datagrams sent. -/
def processPacket (s : KeyRequestClientState) (d : Datagram) (buflen : Nat) (out : Outcome) :
    Option (Bool × KeyRequestClientState × List Datagram) :=
  match s.state with
  | .initial => some (s.initial D m d out)
  | .kxKeySent => s.kxKeySent D m d buflen out
  | .idSent => some (false, s, [])
  | .failure => some (false, s, [])

end KeyRequestClientState

/-! ### The network -/

/-- A datagram sent, with the session that sent it. -/
structure Transmission where
  sender : Party
  datagram : Datagram

/-- All sessions, every datagram sent so far, and every datagram a server session has processed. -/
structure Net where
  requesters : Nat → KeyRequesterState
  servers : Nat → KeyRequestClientState
  sent : List Transmission
  received : List (Nat × Datagram)

/-- A step of the network: a requester starts, or a datagram is delivered to a session. -/
inductive NetEvent where
  | start (n : Nat)
  | toRequester (n : Nat) (d : Datagram) (buflen : Nat) (out : Outcome)
  | toServer (m : Nat) (d : Datagram) (buflen : Nat) (out : Outcome)

namespace Net

/-- Before any session has started. -/
def init : Net := ⟨fun _ => {}, fun _ => {}, [], []⟩

/-- One step; `none` when it cannot be taken, an abort included. -/
def step (D : Deployment) (net : Net) : NetEvent → Option Net
  | .start n =>
    -- `GetKey4` and `GetKey6` send the public key and go to `KXKeySent`.
    if (net.requesters n).currentState = .initial then
      some { net with
        requesters := Function.update net.requesters n
          { net.requesters n with currentState := .kxKeySent }
        sent := net.sent ++ [⟨.requester n, ⟨some (publicKey (.requester n)), none⟩⟩] }
    else
      none
  | .toRequester n d buflen out =>
    ((net.requesters n).processPacket D n d buflen out).map fun r =>
      { net with
        requesters := Function.update net.requesters n r.2.1
        sent := net.sent ++ r.2.2.map fun d => ⟨.requester n, d⟩ }
  | .toServer m d buflen out =>
    ((net.servers m).processPacket D m d buflen out).map fun r =>
      { net with
        servers := Function.update net.servers m r.2.1
        sent := net.sent ++ r.2.2.map fun d => ⟨.server m, d⟩
        received := net.received ++ [(m, d)] }

end Net

/-! ### The attacker -/

/-- The keys the attacker may have: all but those of two genuine key pairs. -/
def Key.Exposed : Key → Prop
  | .pair _ => False
  | .weak _ _ => True
  | .other _ => True

/-- What the attacker may know: a byte or a signature. -/
inductive Fact where
  | byte (b : SByte)
  | signature (s : Signed)

/-- What the attacker can derive from the datagrams sent: public bytes, signatures in packets under
    keys it has, the contents of those, and signatures of its own. -/
inductive Knows (sent : List Transmission) : Fact → Prop where
  | lit (b : UInt8) : Knows sent (.byte (.lit b))
  | kx (p : Party) (i : Fin 32) : Knows sent (.byte (.kx p i))
  | opened {t : Transmission} {k : Key} {id : Str} {s : Signed} (ht : t ∈ sent)
      (hpacket : t.datagram.sealedWith = some (k, .idAndSig id (some s))) (hk : k.Exposed) :
      Knows sent (.signature s)
  | content {s : Signed} {b : SByte} (hs : Knows sent (.signature s)) (hb : b ∈ s.content) :
      Knows sent (.byte b)
  | sign (i : Nat) (content : List SByte) (h : ∀ b ∈ content, Knows sent (.byte b)) :
      Knows sent (.signature ⟨.attacker i, content⟩)

/-- The datagrams the attacker can deliver.  It knows every byte of the string they start with, and
    their packet is one that was sent, or one it sealed itself with a signature it knows. -/
structure Injectable (sent : List Transmission) (d : Datagram) : Prop where
  asShortString : ∀ kx, d.asShortString = some kx → ∀ b ∈ kx, Knows sent (.byte b)
  sealedWith : ∀ k payload, d.sealedWith = some (k, payload) →
    (∃ t ∈ sent, t.datagram.sealedWith = some (k, payload)) ∨
      (k.Exposed ∧ ∀ id s, payload = .idAndSig id (some s) → Knows sent (.signature s))

/-- The steps of a network under attack. -/
def Net.Admissible (net : Net) : NetEvent → Prop
  | .start _ => True
  | .toRequester _ d _ _ => Injectable net.sent d
  | .toServer _ d _ _ => Injectable net.sent d

/-- The states of a network under attack, if every step also satisfies `ok`. -/
def Net.Reachable (D : Deployment) (ok : Net → NetEvent → Prop) : Net → Prop :=
  General.Reachable (Net.step D) (fun net e => net.Admissible e ∧ ok net e) .init

end Mclog
