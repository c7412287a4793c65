import Mclog.Equiv.KeyNetwork

/-!
# An exchange completes

If a requester and a process know each other, the five steps of their exchange lead `GetKey` to the
multicast key of the process, whatever happens in between elsewhere that ends no process: other
calls of `GetKey`, other processes, datagrams from other endpoints, and empty datagrams
(`getKey_completes`).  Between two steps the requester and the session of its endpoint stay as they
are (`At.meanwhile`).
-/

namespace Mclog

open General

/-- All calls succeed. -/
structure Outcome.Works (out : Outcome) : Prop where
  stashGet : out.stashGet = true
  sign : out.sign = true
  sendTo : out.sendTo = true

/-! ### The datagrams of an exchange -/

section

variable (D : Deployment) (n m : Nat)

/-- A public key, as both sides send it first. -/
def publicKeyDatagram (p : Party) : Datagram := ⟨some (publicKey p), none⟩

/-- The packet of requester `n` for server session `m`. -/
def requestDatagram (out : Outcome) : Datagram :=
  idAndSigDatagram out (some (.pair s(.requester n, .server m))) (D.id (D.requesterHost n))
    ⟨.honest (D.requesterHost n), publicKey (.server m)⟩

/-- The packet of server session `m` for requester `n`. -/
def answerDatagram (out : Outcome) : Datagram :=
  idAndSigDatagram out (some (.pair s(.server m, .requester n))) (D.id (D.serverHost m))
    ⟨.honest (D.serverHost m), publicKey (.requester n) ++ processKey (D.serverProcess m)⟩

end

/-- A packet opens under its key. -/
theorem openDatagram_idAndSigDatagram {out : Outcome} {key key' : Key} {id : Str} {s : Signed}
    {buflen : Nat} (hlen : k_minPacketLen < buflen) (hkey : key = key') :
    openDatagram (idAndSigDatagram out (some key) id s) buflen (some key') =
      some (.idAndSig id (some s)) := by
  subst hkey
  simp [openDatagram, idAndSigDatagram, hlen]

/-! ### The requester's steps -/

namespace KeyRequester

/-- A requester that has sent its public key. -/
def asked (now : Int) : KeyRequester := ⟨{ currentState := .kxKeySent }, now, .waiting⟩

/-- Requester `n` after it got the public key of server session `m`. -/
def identified (n m : Nat) (now : Int) : KeyRequester :=
  ⟨{ currentState := .idSent
     theirKX := publicKey (.server m)
     sharedKey := some (.pair s(.requester n, .server m)) }, now, .waiting⟩

variable {D : Deployment} {n m : Nat} {now : Int}

theorem turn_asked {recvrc time : Int} {out : Outcome} (hpos : recvrc > 0) (hworks : out.Works) :
    machine D n (asked now) (.received recvrc (publicKeyDatagram (.server m)) out time) =
      some (identified n m now, [requestDatagram D n m out]) := by
  simp [machine, asked, turn, hpos, KeyRequesterState.processPacket, KeyRequesterState.kxKeySent,
    publicKeyDatagram, KeyRequesterState.sendIdAndSig, hworks.stashGet, hworks.sign, hworks.sendTo,
    loopHead, identified, requestDatagram]

/-- A signature over the own public key and 32 bytes, by an identity that is known. -/
theorem isValidUser_answer
    (hknown : D.knownKeys (D.requesterHost n) (D.id (D.serverHost m)) =
      some (.honest (D.serverHost m))) :
    KeyRequesterState.isValidUser D n (D.id (D.serverHost m))
      (some ⟨.honest (D.serverHost m),
        publicKey (.requester n) ++ processKey (D.serverProcess m)⟩) =
        some (processKey (D.serverProcess m)) := by
  unfold KeyRequesterState.isValidUser
  rw [hknown]
  simp [crypto_kx_SESSIONKEYBYTES]

theorem turn_identified {recvrc time : Int} {out out' : Outcome} (hlen : k_minPacketLen < recvrc)
    (hknown : D.knownKeys (D.requesterHost n) (D.id (D.serverHost m)) =
      some (.honest (D.serverHost m))) :
    ∃ q, machine D n (identified n m now) (.received recvrc (answerDatagram D n m out) out' time) =
        some (q, []) ∧
      q.phase = .returned ⟨processKey (D.serverProcess m), now, time⟩ := by
  have hlen' : k_minPacketLen < recvrc.toNat := by omega
  -- Both sides compute the same key of the two key pairs, so the answer opens.
  have hopen : openDatagram (answerDatagram D n m out) recvrc.toNat
      (some (.pair s(.requester n, .server m))) = some (.idAndSig (D.id (D.serverHost m))
        (some ⟨.honest (D.serverHost m),
          publicKey (.requester n) ++ processKey (D.serverProcess m)⟩)) :=
    openDatagram_idAndSigDatagram hlen' (congrArg Key.pair Sym2.eq_swap)
  have hpos : recvrc > 0 := by omega
  have hprocess : (identified n m now).state.processPacket D n (answerDatagram D n m out)
      recvrc.toNat out' = some (true,
        ⟨.success, publicKey (.server m), some (.pair s(.requester n, .server m)),
          D.id (D.serverHost m), processKey (D.serverProcess m)⟩, []) := by
    unfold KeyRequesterState.processPacket identified
    dsimp only
    unfold KeyRequesterState.idSent
    rw [if_neg (by omega), hopen]
    dsimp only
    rw [isValidUser_answer hknown]
  refine ⟨loopHead ⟨⟨.success, publicKey (.server m), some (.pair s(.requester n, .server m)),
    D.id (D.serverHost m), processKey (D.serverProcess m)⟩, now, .waiting⟩ time, ?_, rfl⟩
  show turn D n (identified n m now)
    (.received recvrc (answerDatagram D n m out) out' time) = some (_, [])
  unfold turn
  dsimp only
  rw [if_pos hpos, hprocess]
  rfl

end KeyRequester

/-! ### The server's steps -/

namespace KeyRequestListener

variable {D : Deployment} {n m : Nat} {l : KeyRequestListener} {src : UdpEndpoint} {r : Received}

/-- A datagram is handled by either branch. -/
theorem branch_of_pos (h : r.recvrc > 0) : l.branch D src r = l.handle D src r := by
  cases src with
  | v4 addr port =>
    show l.ipv4Branch D (.v4 addr port) r = _
    unfold ipv4Branch
    rw [if_pos (by omega), if_neg (by omega)]
  | v6 addr port =>
    show l.ipv6Branch D (.v6 addr port) r = _
    unfold ipv6Branch
    rw [if_pos h, if_neg (by omega)]

/-- A session that has sent its public key to requester `n`. -/
def greeted (n m : Nat) (time : Int) : ClientSession where
  keyPair := m
  client :=
    { state := .kxKeySent
      theirKX := publicKey (.requester n)
      sharedKey := some (.pair s(.server m, .requester n)) }
  lastStateChangeTime := time

/-- The first datagram of an exchange makes a session. -/
theorem branch_hello (hnone : l.clients src = none) (hpos : r.recvrc > 0)
    (hdatagram : r.datagram = publicKeyDatagram (.requester n)) (hsendTo : r.out.sendTo = true) :
    l.branch D src r = .ok
      ({ l with
        clients := Function.update l.clients src (some (greeted n l.keyPairs r.changeTime))
        keyPairs := l.keyPairs + 1 }, [(src, publicKeyDatagram (.server l.keyPairs))]) := by
  rw [branch_of_pos hpos]
  unfold handle clientFor
  rw [hnone]
  simp [newClient, ClientSession.processPacket, KeyRequestClientState.processPacket,
    KeyRequestClientState.initial, hdatagram, publicKeyDatagram, hsendTo, ClientSession.success,
    greeted]

/-- A signature over the own public key by an identity that is known. -/
theorem isValidUser_request
    (hknown : D.knownKeys (D.serverHost m) (D.id (D.requesterHost n)) =
      some (.honest (D.requesterHost n))) :
    KeyRequestClientState.isValidUser D m (D.id (D.requesterHost n))
      (some ⟨.honest (D.requesterHost n), publicKey (.server m)⟩) = true := by
  unfold KeyRequestClientState.isValidUser
  rw [hknown]
  simp

/-- The second datagram of an exchange is answered, and the session is done. -/
theorem branch_request {time : Int} {out : Outcome}
    (hstored : l.clients src = some (greeted n m time)) (hlen : k_minPacketLen < r.recvrc)
    (hdatagram : r.datagram = requestDatagram D n m out) (hworks : r.out.Works)
    (hknown : D.knownKeys (D.serverHost m) (D.id (D.requesterHost n)) =
      some (.honest (D.requesterHost n))) :
    ∃ l', l.branch D src r = .ok (l', [(src, answerDatagram D n m r.out)]) ∧
      l'.clients src = none := by
  have hopen : openDatagram r.datagram r.recvrc.toNat
      (some (.pair s(.server m, .requester n))) = some (.idAndSig (D.id (D.requesterHost n))
        (some ⟨.honest (D.requesterHost n), publicKey (.server m)⟩)) := by
    rw [hdatagram]
    exact openDatagram_idAndSigDatagram (by omega) (congrArg Key.pair Sym2.eq_swap)
  have hprocess : (greeted n m time).client.processPacket D m r.datagram r.recvrc.toNat r.out =
      some (true,
        { (greeted n m time).client with
          theirId := D.id (D.requesterHost n)
          state := .idSent }, [answerDatagram D n m r.out]) := by
    unfold KeyRequestClientState.processPacket greeted
    dsimp only
    unfold KeyRequestClientState.kxKeySent
    rw [if_neg (by omega), if_neg (by omega), hopen]
    dsimp only
    rw [if_pos (isValidUser_request hknown)]
    simp [KeyRequestClientState.sendIdAndSig, hworks.stashGet, hworks.sign, hworks.sendTo,
      answerDatagram]
  rw [branch_of_pos (by omega)]
  unfold handle clientFor
  rw [hstored]
  dsimp only [Option.getD_some]
  unfold ClientSession.processPacket
  have hkey : (greeted n m time).keyPair = m := rfl
  rw [hkey, hprocess]
  simp [ClientSession.success]

end KeyRequestListener

/-! ### The network's steps -/

namespace KeyNetwork

section

variable (D : Deployment) (n p : Nat) (src : UdpEndpoint)

/-- The requester is `q`, and the process has stored `c` for the endpoint. -/
structure At (q : KeyRequester) (c : Option ClientSession) (net : KeyNetwork) : Prop where
  requester : net.requesters n = q
  client : (net.listeners p).clients src = c

/-- A step that is none of the exchange between the requester and the process: it brings no datagram
    to the requester, nor one from its endpoint to the process, and the requester's session does not
    expire. -/
def Elsewhere (net : KeyNetwork) : KeyEvent → Prop
  | .getKey n' _ _ _ => n' ≠ n
  | .turn n' (.silent _) => n' ≠ n
  | .turn n' (.received recvrc _ _ _) => n' = n → recvrc ≤ 0
  | .received p' src' r => p' = p → src' = src → r.recvrc ≤ 0
  | .clearExpired p' now => p' = p → ∀ st, (net.listeners p).clients src = some st →
    now ≤ st.lastStateChangeTime + 5

/-- What holds as long as the exchange rests. -/
def Meanwhile (Q : KeyNetwork → Prop) : KeyNetwork → Prop :=
  Throughout (step D) (Elsewhere n p src) Q

variable {D n p src} {q : KeyRequester} {c : Option ClientSession} {net net' : KeyNetwork}

/-- A requester that gets an empty datagram, or an error, stays as it is. -/
theorem requester_ignores {recvrc time : Int} {d : Datagram} {out : Outcome} (h : recvrc ≤ 0)
    (q : KeyRequester) :
    KeyRequester.machine D n q (.received recvrc d out time) = some (q, []) := by
  unfold KeyRequester.machine
  cases q.phase with
  | idle | returned => rfl
  | waiting =>
    show q.turn D n (.received recvrc d out time) = some (q, [])
    unfold KeyRequester.turn
    dsimp only
    rw [if_neg (by omega)]

/-- A datagram from elsewhere leaves the session alone. -/
theorem clients_branch {l l' : KeyRequestListener} {src' : UdpEndpoint} {r : Received}
    {replies : List (UdpEndpoint × Datagram)} (h : l.branch D src' r = .ok (l', replies))
    (helsewhere : src' = src → r.recvrc ≤ 0) : l'.clients src = l.clients src := by
  rcases KeyRequestListener.branch_cases h with ⟨hpos, hhandle⟩ | ⟨rfl, -⟩
  · refine KeyRequestListener.clients_handle D hhandle fun heq => ?_
    have := helsewhere heq.symm
    omega
  · rfl

theorem At.step_elsewhere (h : At n p src q c net) {e : KeyEvent} (he : Elsewhere n p src net e)
    (hs : net.step D e = some net') : At n p src q c net' := by
  obtain ⟨hrequester, hclient⟩ := h
  cases e with
  | getKey n' now socket sendTo =>
    simp only [step] at hs
    split_ifs at hs
    obtain rfl := Option.some.inj hs
    refine ⟨?_, hclient⟩
    show Function.update net.requesters n' _ n = q
    rw [Function.update_of_ne (Ne.symm he)]
    exact hrequester
  | turn n' t =>
    obtain ⟨⟨q', sent⟩, hq', rfl⟩ := Option.map_eq_some_iff.mp hs
    refine ⟨?_, hclient⟩
    show Function.update net.requesters n' q' n = q
    by_cases hn : n = n'
    · subst hn
      rw [Function.update_self, ← hrequester]
      cases t with
      | silent time => exact absurd rfl he
      | received recvrc d out time =>
        rw [requester_ignores (he rfl)] at hq'
        exact (Prod.mk.inj (Option.some.inj hq')).1.symm
    · rw [Function.update_of_ne hn]
      exact hrequester
  | received p' src' r =>
    simp only [step] at hs
    cases hbranch : (net.listener p').branch D src' r with
    | error stop =>
      rw [hbranch] at hs
      cases hs
    | ok result =>
      rw [hbranch] at hs
      obtain rfl := Option.some.inj hs
      refine ⟨hrequester, ?_⟩
      show (Function.update net.listeners p' result.1 p).clients src = c
      by_cases hp : p = p'
      · subst hp
        rw [Function.update_self, clients_branch hbranch (he rfl)]
        exact hclient
      · rw [Function.update_of_ne hp]
        exact hclient
  | clearExpired p' now =>
    -- The sweep of another process, or one that comes too early for the session.
    obtain rfl := Option.some.inj hs
    refine ⟨hrequester, ?_⟩
    show (Function.update net.listeners p' _ p).clients src = c
    by_cases hp : p = p'
    · subst hp
      rw [Function.update_self]
      show ((net.listeners p).clients src).filter _ = c
      rw [hclient]
      cases c with
      | none => rfl
      | some st =>
        have hfresh := he rfl st hclient
        rw [Option.filter_some, if_pos]
        simp only [KeyRequestListener.expired, Bool.not_eq_true', decide_eq_false_iff_not]
        omega
    · rw [Function.update_of_ne hp]
      exact hclient

/-- **Between two steps of the exchange** both sides stay as they are. -/
theorem At.meanwhile (h : At n p src q c net) {Q : KeyNetwork → Prop}
    (hQ : ∀ net, At n p src q c net → Q net) : Meanwhile D n p src Q net :=
  Throughout.of_invariant h (fun _ _ _ h he hs => h.step_elsewhere he hs) hQ

/-- A turn of the requester. -/
theorem At.after_turn (h : At n p src q c net) {t : GetKeyTurn} {q' : KeyRequester}
    {sent : List Datagram} (ht : KeyRequester.machine D n q t = some (q', sent)) {Q : KeyNetwork → Prop}
    (hQ : ∀ net, At n p src q' c net → (∀ d ∈ sent, ⟨.requester n, d⟩ ∈ net.sent) → Q net) :
    After (step D) (.turn n t) Q net := by
  refine ⟨_, ?_, hQ { net with
    requesters := Function.update net.requesters n q'
    sent := net.sent ++ sent.map fun d => ⟨.requester n, d⟩ } ⟨?_, h.client⟩ ?_⟩
  · simp only [step, h.requester, ht, Option.map_some]
  · exact Function.update_self _ _ _
  · exact fun d hd => List.mem_append_right _ (List.mem_map_of_mem hd)

/-- A datagram from the requester's endpoint. -/
theorem At.after_received (h : At n p src q c net) {r : Received} {l : KeyRequestListener}
    {replies : List (UdpEndpoint × Datagram)}
    (hr : (net.listener p).branch D src r = .ok (l, replies)) {Q : KeyNetwork → Prop}
    (hQ : ∀ net', At n p src q (l.clients src) net' → (∀ reply ∈ replies,
      ⟨.server ((net.listener p).clientFor src r).keyPair, reply.2⟩ ∈ net'.sent) → Q net') :
    After (step D) (.received p src r) Q net := by
  refine ⟨_, ?_, hQ { net with
    listeners := Function.update net.listeners p l
    keyPairs := l.keyPairs
    sent := net.sent ++ replies.map fun reply =>
      ⟨.server ((net.listener p).clientFor src r).keyPair, reply.2⟩ } ⟨h.requester, ?_⟩ ?_⟩
  · simp only [step, hr]
  · show (Function.update net.listeners p l p).clients src = l.clients src
    rw [Function.update_self]
  · exact fun reply hreply => List.mem_append_right _ (List.mem_map_of_mem hreply)

end

/-! ### The exchange -/

section

variable (D : Deployment) (n p : Nat) (src : UdpEndpoint) (now : Int)

/-- The answer of server session `m` makes `GetKey` return the key of the process. -/
def AwaitsAnswer (m : Nat) (out : Outcome) (net : KeyNetwork) : Prop :=
  ∀ (recvrc : Int) (out' : Outcome) (time : Int), k_minPacketLen < recvrc →
    After (step D) (.turn n (.received recvrc (answerDatagram D n m out) out' time))
      (fun net => (net.requesters n).phase = .returned ⟨processKey p, now, time⟩) net

/-- The packet of the requester is answered, and the answer awaited. -/
def AwaitsRequest (m : Nat) (out : Outcome) (net : KeyNetwork) : Prop :=
  ∀ r : Received, k_minPacketLen < r.recvrc → r.datagram = requestDatagram D n m out →
    r.out.Works → After (step D) (.received p src r)
      (fun net => ⟨.server m, answerDatagram D n m r.out⟩ ∈ net.sent ∧
        Meanwhile D n p src (AwaitsAnswer D n p now m r.out) net) net

/-- The public key of server session `m` makes the requester send its packet. -/
def AwaitsGreeting (m : Nat) (net : KeyNetwork) : Prop :=
  ∀ recvrc out time, 0 < recvrc → out.Works →
    After (step D) (.turn n (.received recvrc (publicKeyDatagram (.server m)) out time))
      (fun net => ⟨.requester n, requestDatagram D n m out⟩ ∈ net.sent ∧
        Meanwhile D n p src (AwaitsRequest D n p src now m out) net) net

/-- The public key of the requester is answered with that of a new session of the process. -/
def AwaitsHello (net : KeyNetwork) : Prop :=
  ∀ r : Received, 0 < r.recvrc → r.datagram = publicKeyDatagram (.requester n) →
    r.out.sendTo = true → D.serverProcess net.keyPairs = p → After (step D) (.received p src r)
      (fun net' =>
        ⟨.server net.keyPairs, publicKeyDatagram (.server net.keyPairs)⟩ ∈ net'.sent ∧
          Meanwhile D n p src (AwaitsGreeting D n p src now net.keyPairs) net') net

/-- `GetKey` sends the public key of the requester, and the exchange takes its course. -/
def Completes (net : KeyNetwork) : Prop :=
  After (step D) (.getKey n now true true)
    (fun net => ⟨.requester n, publicKeyDatagram (.requester n)⟩ ∈ net.sent ∧
      Meanwhile D n p src (AwaitsHello D n p src now) net) net

variable {D n p src now} {m : Nat} {net : KeyNetwork} {c : Option ClientSession}

theorem awaitsAnswer (hp : D.serverProcess m = p)
    (hclient : D.knownKeys (D.requesterHost n) (D.id (D.processHost p)) =
      some (.honest (D.processHost p)))
    {out : Outcome} (h : At n p src (.identified n m now) c net) :
    AwaitsAnswer D n p now m out net := by
  intro recvrc out' time hlen
  subst hp
  obtain ⟨q, hq, hphase⟩ : ∃ q, KeyRequester.machine D n (.identified n m now)
      (.received recvrc (answerDatagram D n m out) out' time) = some (q, []) ∧
        q.phase = .returned ⟨processKey (D.serverProcess m), now, time⟩ :=
    KeyRequester.turn_identified hlen hclient
  refine h.after_turn hq fun net' h' _ => ?_
  rw [h'.requester]
  exact hphase

theorem awaitsRequest (hp : D.serverProcess m = p)
    (hclient : D.knownKeys (D.requesterHost n) (D.id (D.processHost p)) =
      some (.honest (D.processHost p)))
    (hserver : D.knownKeys (D.processHost p) (D.id (D.requesterHost n)) =
      some (.honest (D.requesterHost n)))
    {out : Outcome} {time : Int}
    (h : At n p src (.identified n m now) (some (KeyRequestListener.greeted n m time)) net) :
    AwaitsRequest D n p src now m out net := by
  intro r hlen hdatagram hworks
  subst hp
  have hstored : (net.listener (D.serverProcess m)).clients src =
      some (KeyRequestListener.greeted n m time) := h.client
  obtain ⟨l, hl, -⟩ := KeyRequestListener.branch_request hstored hlen hdatagram hworks hserver
  refine h.after_received hl fun net' h' hsent => ⟨?_, ?_⟩
  · have hkey : ((net.listener (D.serverProcess m)).clientFor src r).keyPair = m := by
      unfold KeyRequestListener.clientFor
      rw [hstored]
      rfl
    rw [hkey] at hsent
    exact hsent _ (List.mem_singleton.mpr rfl)
  · exact h'.meanwhile fun _ => awaitsAnswer rfl hclient

theorem awaitsGreeting (hp : D.serverProcess m = p)
    (hclient : D.knownKeys (D.requesterHost n) (D.id (D.processHost p)) =
      some (.honest (D.processHost p)))
    (hserver : D.knownKeys (D.processHost p) (D.id (D.requesterHost n)) =
      some (.honest (D.requesterHost n)))
    {time : Int}
    (h : At n p src (.asked now) (some (KeyRequestListener.greeted n m time)) net) :
    AwaitsGreeting D n p src now m net := by
  intro recvrc out time' hpos hworks
  refine h.after_turn (KeyRequester.turn_asked hpos hworks) fun net' h' hsent => ⟨?_, ?_⟩
  · exact hsent _ (by simp)
  · exact h'.meanwhile fun _ => awaitsRequest hp hclient hserver

theorem awaitsHello
    (hclient : D.knownKeys (D.requesterHost n) (D.id (D.processHost p)) =
      some (.honest (D.processHost p)))
    (hserver : D.knownKeys (D.processHost p) (D.id (D.requesterHost n)) =
      some (.honest (D.requesterHost n)))
    (h : At n p src (.asked now) none net) : AwaitsHello D n p src now net := by
  intro r hpos hdatagram hsendTo hp
  have hnone : (net.listener p).clients src = none := h.client
  have hbranch := KeyRequestListener.branch_hello (D := D) hnone hpos hdatagram hsendTo
  refine h.after_received hbranch fun net' h' hsent => ⟨?_, ?_⟩
  · have hkey : ((net.listener p).clientFor src r).keyPair = net.keyPairs := by
      unfold KeyRequestListener.clientFor
      rw [hnone]
      rfl
    rw [hkey] at hsent
    exact hsent _ (List.mem_singleton.mpr rfl)
  · have hgreeted : At n p src (.asked now)
        (some (KeyRequestListener.greeted n net.keyPairs r.changeTime)) net' :=
      ⟨h'.requester, h'.client.trans (Function.update_self _ _ _)⟩
    exact hgreeted.meanwhile fun _ => awaitsGreeting hp hclient hserver

end

/-- **An exchange completes.**  A new requester and a process that has no session for its endpoint
    know each other.  Then `GetKey` returns the multicast key of the process if the network delivers
    the four datagrams that they send each other, with the number of bytes that each asks for, and
    all calls succeed that the two make: those for the socket, the key stash, the signature and
    `sendto`.  The key pair made for the session has to be one of the process, to the deployment.  In
    between anything may happen elsewhere that ends no process: steps that bring no datagram to the
    requester, nor one from its endpoint to the process, and neither end the requester's wait nor
    expire its session. -/
theorem getKey_completes (D : Deployment) (n p : Nat) (src : UdpEndpoint) (now : Int)
    (hclient : D.knownKeys (D.requesterHost n) (D.id (D.processHost p)) =
      some (.honest (D.processHost p)))
    (hserver : D.knownKeys (D.processHost p) (D.id (D.requesterHost n)) =
      some (.honest (D.requesterHost n)))
    (net : KeyNetwork) (hnew : net.requesters n = {})
    (hnone : (net.listeners p).clients src = none) : Completes D n p src now net := by
  have hasked : At n p src (.asked now) none
      { net with
        requesters := Function.update net.requesters n (.asked now)
        sent := net.sent ++ [⟨.requester n, publicKeyDatagram (.requester n)⟩] } :=
    ⟨Function.update_self _ _ _, hnone⟩
  refine ⟨_, ?_, List.mem_append_right _ (by simp),
    hasked.meanwhile fun _ => awaitsHello hclient hserver⟩
  simp only [step, hnew]
  rfl

/-- Requester 0 and process 0 know each other. -/
theorem getKey_completes_example : Completes exampleDeployment 0 0 exampleEndpoint 10 .init :=
  getKey_completes exampleDeployment 0 0 exampleEndpoint 10 (by decide) (by decide) .init rfl rfl

end KeyNetwork

end Mclog
