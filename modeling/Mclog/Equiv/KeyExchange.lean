import Mclog.KeyExchange

/-!
# What the key exchange guarantees

Nothing is assumed of the sessions and the attacker but the symbolic cryptography.  Everything rests
on what a signature by an honest host can say: a requester signs the KX value it received, and a
server session the 32-byte KX value it received followed by its multicast key (`Net.sound`).  An
honest signature the attacker knows was sent in a packet (`Knows.signature_sent`).
-/

namespace Mclog

open General

/-! ### Public keys -/

@[simp] theorem length_publicKey (p : Party) : (publicKey p).length = 32 := by
  simp [publicKey]

@[simp] theorem length_processKey (process : Nat) : (processKey process).length = 32 := by
  simp [processKey]

theorem mem_publicKey {p : Party} {b : SByte} (h : b ∈ publicKey p) : ∃ i, b = .kx p i := by
  unfold publicKey at h
  obtain ⟨i, -, rfl⟩ := List.mem_map.mp h
  exact ⟨i, rfl⟩

theorem mem_processKey {process : Nat} {b : SByte} (h : b ∈ processKey process) :
    ∃ i, b = .mcast process i := by
  unfold processKey at h
  obtain ⟨i, -, rfl⟩ := List.mem_map.mp h
  exact ⟨i, rfl⟩

@[simp] theorem ownerOf_publicKey (p : Party) : ownerOf (publicKey p) = some p := by
  have hcons : ∃ l, publicKey p = .kx p 0 :: l := ⟨_, rfl⟩
  obtain ⟨l, hl⟩ := hcons
  have howner : ownerOf (.kx p 0 :: l) = some p := by
    unfold ownerOf
    simp [← hl]
  rw [hl, howner]

/-- The shared key of two genuine public keys. -/
@[simp] theorem Deployment.sharedKey_publicKey (D : Deployment) (p q : Party) :
    D.sharedKey p (publicKey q) = .pair s(p, q) := by
  simp [sharedKey]

/-! ### What one call does -/

/-- What a requester does with a datagram. -/
inductive RequesterStep (D : Deployment) (n : Nat) (s : KeyRequesterState) (d : Datagram)
    (buflen : Nat) (out : Outcome) : KeyRequesterState → List Datagram → Prop where
  /-- It signs the KX value it received. -/
  | signs {s' : KeyRequesterState} (theirKX : List SByte) (hstate : s.currentState = .kxKeySent)
      (hread : d.asShortString = some theirKX) (hstate' : s'.currentState = .idSent) :
      RequesterStep D n s d buflen out s'
        [idAndSigDatagram out (some (D.sharedKey (.requester n) theirKX))
          (D.id (D.requesterHost n)) ⟨.honest (D.requesterHost n), theirKX⟩]
  /-- It accepts a multicast key. -/
  | accepts {s' : KeyRequesterState} (id : Str) (signedMsg : Option Signed)
      (hopen : openDatagram d buflen s.sharedKey = some (.idAndSig id signedMsg))
      (hvalid : KeyRequesterState.isValidUser D n id signedMsg = some s'.mcastKey) :
      RequesterStep D n s d buflen out s' []
  /-- It sends nothing and accepts no key. -/
  | quiet {s' : KeyRequesterState}
      (hsuccess : s'.currentState = .success → s.currentState = .success ∧ s' = s) :
      RequesterStep D n s d buflen out s' []

/-- `SendIdAndSig` sends its packet, or nothing. -/
theorem KeyRequesterState.sendIdAndSig_cases (D : Deployment) (n : Nat) (s : KeyRequesterState)
    (out : Outcome) :
    s.sendIdAndSig D n out = (true, [idAndSigDatagram out s.sharedKey (D.id (D.requesterHost n))
        ⟨.honest (D.requesterHost n), s.theirKX⟩]) ∨
      s.sendIdAndSig D n out = (false, []) := by
  unfold sendIdAndSig
  split_ifs <;> simp

/-- A call does one of these. -/
theorem KeyRequesterState.processPacket_step {D : Deployment} {n : Nat} {s s' : KeyRequesterState}
    {d : Datagram} {buflen : Nat} {out : Outcome} {rc : Bool} {sent : List Datagram}
    (h : s.processPacket D n d buflen out = some (rc, s', sent)) :
    RequesterStep D n s d buflen out s' sent := by
  unfold processPacket at h
  cases hstate : s.currentState with
  | initial | success | failure =>
    -- These states do nothing with a datagram.
    rw [hstate] at h
    simp only [Option.some.injEq, Prod.mk.injEq] at h
    obtain ⟨-, rfl, rfl⟩ := h
    exact .quiet fun hsuccess => ⟨hsuccess, rfl⟩
  | kxKeySent =>
    rw [hstate] at h
    simp only [Option.some.injEq] at h
    unfold kxKeySent at h
    cases hread : d.asShortString with
    | none =>
      rw [hread] at h
      simp only [Prod.mk.injEq] at h
      obtain ⟨-, rfl, rfl⟩ := h
      exact .quiet (by simp)
    | some theirKX =>
      rw [hread] at h
      simp only at h
      rcases sendIdAndSig_cases D n
        { s with theirKX, sharedKey := some (D.sharedKey (.requester n) theirKX) } out with
        hsend | hsend
      all_goals
        rw [hsend] at h
        simp only [if_true, Bool.false_eq_true, if_false, Prod.mk.injEq] at h
        obtain ⟨-, rfl, rfl⟩ := h
      · exact .signs theirKX hstate hread rfl
      · -- There is no signature, or it could not be sent.
        exact .quiet (by simp)
  | idSent =>
    rw [hstate] at h
    simp only at h
    unfold idSent at h
    split_ifs at h with hshort
    split at h
    · rename_i id signedMsg hopen
      split at h
      · rename_i mcastKey hvalid
        simp only [Option.some.injEq, Prod.mk.injEq] at h
        obtain ⟨-, rfl, rfl⟩ := h
        exact .accepts id signedMsg hopen hvalid
      · -- The signature is not that of a user it knows.
        simp only [Option.some.injEq, Prod.mk.injEq] at h
        obtain ⟨-, rfl, rfl⟩ := h
        exact .quiet (by simp)
    all_goals
      simp only [Option.some.injEq, Prod.mk.injEq] at h
      obtain ⟨-, rfl, rfl⟩ := h
      exact .quiet (by simp)

/-- What a server session does with a datagram. -/
inductive ClientStep (D : Deployment) (m : Nat) (s : KeyRequestClientState) (d : Datagram)
    (buflen : Nat) (out : Outcome) : KeyRequestClientState → List Datagram → Prop where
  /-- It reads the peer's KX value, and may send its own. -/
  | greets {s' : KeyRequestClientState} {sent : List Datagram} (hstate : s.state = .initial)
      (hstate' : s'.state ≠ .initial)
      (hread : s'.state = .kxKeySent → d.asShortString = some s'.theirKX ∧
        s'.theirKX.length = 32 ∧ s'.sharedKey = some (D.sharedKey (.server m) s'.theirKX))
      (hplain : ∀ d' ∈ sent, d'.sealedWith = none) :
      ClientStep D m s d buflen out s' sent
  /-- It authenticates the peer and signs the peer's KX value and the multicast key. -/
  | signs {s' : KeyRequestClientState} (id : Str) (signedMsg : Option Signed)
      (hstate : s.state = .kxKeySent)
      (hopen : openDatagram d buflen s.sharedKey = some (.idAndSig id signedMsg))
      (hvalid : KeyRequestClientState.isValidUser D m id signedMsg = true)
      (hstate' : s'.state = .idSent) (hkey : s'.sharedKey = s.sharedKey) :
      ClientStep D m s d buflen out s'
        [idAndSigDatagram out s.sharedKey (D.id (D.serverHost m))
          ⟨.honest (D.serverHost m), s.theirKX ++ processKey (D.serverProcess m)⟩]
  /-- It sends nothing. -/
  | quiet {s' : KeyRequestClientState} (hstate : s.state ≠ .initial) (hstate' : s'.state ≠ .initial)
      (hsent : s'.state = .kxKeySent → s.state = .kxKeySent) (hkx : s'.theirKX = s.theirKX)
      (hkey : s'.sharedKey = s.sharedKey) :
      ClientStep D m s d buflen out s' []

/-- `SendIdAndSig` sends its packet, or nothing. -/
theorem KeyRequestClientState.sendIdAndSig_cases (D : Deployment) (m : Nat)
    (s : KeyRequestClientState) (out : Outcome) :
    s.sendIdAndSig D m out = (true, [idAndSigDatagram out s.sharedKey (D.id (D.serverHost m))
        ⟨.honest (D.serverHost m), s.theirKX ++ processKey (D.serverProcess m)⟩]) ∨
      s.sendIdAndSig D m out = (false, []) := by
  unfold sendIdAndSig
  split_ifs <;> simp

/-- A call does one of these. -/
theorem KeyRequestClientState.processPacket_step {D : Deployment} {m : Nat}
    {s s' : KeyRequestClientState} {d : Datagram} {buflen : Nat} {out : Outcome} {rc : Bool}
    {sent : List Datagram} (h : s.processPacket D m d buflen out = some (rc, s', sent)) :
    ClientStep D m s d buflen out s' sent := by
  unfold processPacket at h
  cases hstate : s.state with
  | idSent | failure =>
    rw [hstate] at h
    simp only [Option.some.injEq, Prod.mk.injEq] at h
    obtain ⟨-, rfl, rfl⟩ := h
    exact .quiet (by simp [hstate]) (by simp [hstate]) id rfl rfl
  | initial =>
    rw [hstate] at h
    simp only [Option.some.injEq] at h
    unfold initial at h
    cases hread : d.asShortString with
    | none =>
      rw [hread] at h
      simp only [Prod.mk.injEq] at h
      obtain ⟨-, rfl, rfl⟩ := h
      exact .greets hstate (by simp) (by simp) (by simp)
    | some theirKX =>
      rw [hread] at h
      simp only at h
      split_ifs at h with hlen hsend
      all_goals
        simp only [Prod.mk.injEq] at h
        obtain ⟨-, rfl, rfl⟩ := h
      · exact .greets hstate (by simp) (fun _ => ⟨hread, hlen, rfl⟩) (by simp)
      · exact .greets hstate (by simp) (by simp) (by simp)
      · exact .greets hstate (by simp) (by simp) (by simp)
  | kxKeySent =>
    rw [hstate] at h
    simp only at h
    unfold kxKeySent at h
    split_ifs at h with hguard hshort
    · simp only [Option.some.injEq, Prod.mk.injEq] at h
      obtain ⟨-, rfl, rfl⟩ := h
      exact .quiet (by simp [hstate]) (by simp) (by simp) rfl rfl
    · split at h
      · rename_i id signedMsg hopen
        by_cases hvalid : isValidUser D m id signedMsg = true
        · simp only [hvalid, if_true] at h
          rcases sendIdAndSig_cases D m { s with theirId := id } out with hsend | hsend
          all_goals
            rw [hsend] at h
            simp only [if_true, Bool.false_eq_true, if_false, Option.some.injEq,
              Prod.mk.injEq] at h
            obtain ⟨-, rfl, rfl⟩ := h
          · exact .signs id signedMsg hstate hopen hvalid rfl rfl
          · exact .quiet (by simp [hstate]) (by simp [hstate]) (by simp [hstate]) rfl rfl
        · simp only [hvalid, Bool.false_eq_true, if_false, Option.some.injEq, Prod.mk.injEq] at h
          obtain ⟨-, rfl, rfl⟩ := h
          exact .quiet (by simp [hstate]) (by simp) (by simp) rfl rfl
      all_goals
        simp only [Option.some.injEq, Prod.mk.injEq] at h
        obtain ⟨-, rfl, rfl⟩ := h
        exact .quiet (by simp [hstate]) (by simp [hstate]) (by simp [hstate]) rfl rfl

/-! ### What one step of the network sends -/

/-- The datagram holds the signature, sealed with the key. -/
def Datagram.Carries (d : Datagram) (k : Key) (s : Signed) : Prop :=
  ∃ id, d.sealedWith = some (k, .idAndSig id (some s))

/-- A packet that carries a signature and is sent in a step: a requester signs what it received, or
    a server session answers a peer it has authenticated. -/
inductive Net.Signs (D : Deployment) (net : Net) : NetEvent → Transmission → Prop where
  | requester (r : Nat) (d : Datagram) (buflen : Nat) (out : Outcome) (theirKX : List SByte)
      (hstate : (net.requesters r).currentState = .kxKeySent)
      (hread : d.asShortString = some theirKX) :
      Net.Signs D net (.toRequester r d buflen out)
        ⟨.requester r, idAndSigDatagram out (some (D.sharedKey (.requester r) theirKX))
          (D.id (D.requesterHost r)) ⟨.honest (D.requesterHost r), theirKX⟩⟩
  | server (m : Nat) (d : Datagram) (buflen : Nat) (out : Outcome) (id : Str)
      (signedMsg : Option Signed) (hstate : (net.servers m).state = .kxKeySent)
      (hopen : openDatagram d buflen (net.servers m).sharedKey = some (.idAndSig id signedMsg))
      (hvalid : KeyRequestClientState.isValidUser D m id signedMsg = true) :
      Net.Signs D net (.toServer m d buflen out)
        ⟨.server m, idAndSigDatagram out (net.servers m).sharedKey (D.id (D.serverHost m))
          ⟨.honest (D.serverHost m), (net.servers m).theirKX ++ processKey (D.serverProcess m)⟩⟩

namespace Net

variable {D : Deployment} {net net' : Net} {e : NetEvent}

/-- A step keeps what was sent. -/
theorem sent_subset_step (hs : net.step D e = some net') : net.sent ⊆ net'.sent := by
  intro t ht
  cases e with
  | start n =>
    simp only [step] at hs
    split_ifs at hs
    obtain rfl := Option.some.inj hs
    exact List.mem_append_left _ ht
  | toRequester n d buflen out | toServer n d buflen out =>
    simp only [step, Option.map_eq_some_iff] at hs
    obtain ⟨r, -, rfl⟩ := hs
    exact List.mem_append_left _ ht

/-- **What a step sends**: what was sent before, datagrams that are no packets, and packets that
    carry a signature. -/
theorem mem_sent_step (hs : net.step D e = some net') {t : Transmission} (ht : t ∈ net'.sent) :
    t ∈ net.sent ∨ t.datagram.sealedWith = none ∨ Net.Signs D net e t := by
  cases e with
  | start n =>
    simp only [step] at hs
    split_ifs at hs
    obtain rfl := Option.some.inj hs
    rcases List.mem_append.mp ht with hold | hnew
    · exact Or.inl hold
    · rw [List.mem_singleton.mp hnew]
      exact Or.inr (Or.inl rfl)
  | toRequester n d buflen out =>
    simp only [step, Option.map_eq_some_iff] at hs
    obtain ⟨⟨rc, s', sent⟩, hr, rfl⟩ := hs
    rcases List.mem_append.mp ht with hold | hnew
    · exact Or.inl hold
    · cases KeyRequesterState.processPacket_step hr with
      | signs theirKX hstate hread hstate' =>
        rw [List.map_singleton, List.mem_singleton] at hnew
        rw [hnew]
        exact Or.inr (Or.inr (.requester n d buflen out theirKX hstate hread))
      | accepts => simp at hnew
      | quiet => simp at hnew
  | toServer m d buflen out =>
    simp only [step, Option.map_eq_some_iff] at hs
    obtain ⟨⟨rc, s', sent⟩, hr, rfl⟩ := hs
    rcases List.mem_append.mp ht with hold | hnew
    · exact Or.inl hold
    · cases KeyRequestClientState.processPacket_step hr with
      | greets hstate hstate' hread hplain =>
        obtain ⟨d', hd', rfl⟩ := List.mem_map.mp hnew
        exact Or.inr (Or.inl (hplain d' hd'))
      | signs id signedMsg hstate hopen hvalid hstate' hkey =>
        rw [List.map_singleton, List.mem_singleton] at hnew
        rw [hnew]
        exact Or.inr (Or.inr (.server m d buflen out id signedMsg hstate hopen hvalid))
      | quiet => simp at hnew

/-- A step changes a requester only by delivering it a datagram, or by starting it. -/
theorem requesters_step (hs : net.step D e = some net') (n : Nat) :
    net'.requesters n = net.requesters n ∨ (net'.requesters n).currentState = .kxKeySent ∨
      ∃ d buflen out sent, e = .toRequester n d buflen out ∧
        RequesterStep D n (net.requesters n) d buflen out (net'.requesters n) sent := by
  cases e with
  | start n' =>
    simp only [step] at hs
    split_ifs at hs
    obtain rfl := Option.some.inj hs
    by_cases hn : n = n'
    · subst hn
      right
      left
      simp
    · left
      simp [hn]
  | toRequester n' d buflen out =>
    simp only [step, Option.map_eq_some_iff] at hs
    obtain ⟨r, hr, rfl⟩ := hs
    by_cases hn : n = n'
    · subst hn
      right
      right
      refine ⟨d, buflen, out, r.2.2, rfl, ?_⟩
      simpa using KeyRequesterState.processPacket_step hr
    · left
      simp [hn]
  | toServer m d buflen out =>
    simp only [step, Option.map_eq_some_iff] at hs
    obtain ⟨r, -, rfl⟩ := hs
    exact Or.inl rfl

/-- A step changes a server session only by delivering it a datagram. -/
theorem servers_step (hs : net.step D e = some net') (m : Nat) :
    net'.servers m = net.servers m ∨
      ∃ d buflen out sent, e = .toServer m d buflen out ∧
        ClientStep D m (net.servers m) d buflen out (net'.servers m) sent := by
  cases e with
  | start n =>
    simp only [step] at hs
    split_ifs at hs
    obtain rfl := Option.some.inj hs
    exact Or.inl rfl
  | toRequester n d buflen out =>
    simp only [step, Option.map_eq_some_iff] at hs
    obtain ⟨r, -, rfl⟩ := hs
    exact Or.inl rfl
  | toServer m' d buflen out =>
    simp only [step, Option.map_eq_some_iff] at hs
    obtain ⟨r, hr, rfl⟩ := hs
    by_cases hm : m = m'
    · subst hm
      right
      refine ⟨d, buflen, out, r.2.2, rfl, ?_⟩
      simpa using KeyRequestClientState.processPacket_step hr
    · left
      simp [hm]

/-! ### What honest hosts sign -/

/-- A server session in `KXKeySent` shares a key with the 32-byte KX value it received. -/
def ServersKeyed (D : Deployment) (net : Net) : Prop :=
  ∀ m, (net.servers m).state = .kxKeySent → (net.servers m).theirKX.length = 32 ∧
    (net.servers m).sharedKey = some (D.sharedKey (.server m) (net.servers m).theirKX)

/-- What a packet sent says about its sender.  A requester signs the KX value it received, and a
    server session the one it received and its multicast key; each seals with the key it shares
    with that KX value. -/
def Attributed (D : Deployment) (t : Transmission) : Prop :=
  ∀ k payload, t.datagram.sealedWith = some (k, payload) →
    ∃ id theirKX, match t.sender with
      | .requester r => k = D.sharedKey (.requester r) theirKX ∧
        payload = .idAndSig id (some ⟨.honest (D.requesterHost r), theirKX⟩)
      | .server m => theirKX.length = 32 ∧ k = D.sharedKey (.server m) theirKX ∧
        payload = .idAndSig id
          (some ⟨.honest (D.serverHost m), theirKX ++ processKey (D.serverProcess m)⟩)

variable {ok : Net → NetEvent → Prop}

theorem serversKeyed (h : net.Reachable D ok) : net.ServersKeyed D := by
  refine General.Reachable.invariant (by simp [ServersKeyed, init]) ?_ h
  intro net e net' _ hkeyed _ hs m hstate'
  rcases servers_step hs m with hsame | ⟨d, buflen, out, sent, -, hstep⟩
  · rw [hsame] at hstate' ⊢
    exact hkeyed m hstate'
  · cases hstep with
    | greets hstate _ hread hplain => exact (hread hstate').2
    | signs id signedMsg hstate hopen hvalid hidSent hkey =>
      rw [hidSent] at hstate'
      cases hstate'
    | quiet hstate _ hsent hkx hkey =>
      rw [hkx, hkey]
      exact hkeyed m (hsent hstate')

/-- **Every packet is attributed.** -/
theorem attributed (h : net.Reachable D ok) {t : Transmission} (ht : t ∈ net.sent) :
    Attributed D t := by
  revert t
  refine General.Reachable.invariant (I := fun net => ∀ {t}, t ∈ net.sent → Attributed D t)
    (by simp [init]) ?_ h
  intro net e net' hr hold _ hs t ht
  rcases mem_sent_step hs ht with hmem | hplain | hsigns
  · exact hold hmem
  · intro k payload hpacket
    rw [hplain] at hpacket
    cases hpacket
  · intro k payload hpacket
    cases hsigns with
    | requester r d buflen out theirKX hstate hread =>
      simp only [idAndSigDatagram, Option.map_some, Option.some.injEq, Prod.mk.injEq] at hpacket
      exact ⟨_, theirKX, hpacket.1.symm, hpacket.2.symm⟩
    | server m d buflen out id signedMsg hstate hopen hvalid =>
      obtain ⟨hlen, hkey⟩ := serversKeyed hr m hstate
      simp only [idAndSigDatagram, hkey, Option.map_some, Option.some.injEq,
        Prod.mk.injEq] at hpacket
      exact ⟨_, _, hlen, hpacket.1.symm, hpacket.2.symm⟩

end Net

/-- The `known_keys` of the host hold identities of honest hosts only. -/
def Deployment.TrustsHonest (D : Deployment) (host : Nat) : Prop :=
  ∀ id key, D.knownKeys host id = some key → ∃ h, key = .honest h

/-- A packet that opens carries its signature under the receiver's key. -/
theorem carries_of_openDatagram {d : Datagram} {buflen : Nat} {key : Option Key} {id : Str}
    {s : Signed} (h : openDatagram d buflen key = some (.idAndSig id (some s))) :
    ∃ k, key = some k ∧ d.Carries k s := by
  unfold openDatagram at h
  split at h
  · rename_i k payload hpacket
    split_ifs at h with hopen
    obtain rfl := Option.some.inj h
    exact ⟨k, hopen.2.symm, id, hpacket⟩
  · cases h

/-- **Unforgeability.**  An honest signature the attacker knows is in a packet that was sent, under
    a key the attacker has. -/
theorem Knows.signature_sent {sent : List Transmission} {s : Signed} {host : Nat}
    (h : Knows sent (.signature s)) (hsigner : s.signer = .honest host) :
    ∃ t ∈ sent, ∃ k, t.datagram.Carries k s ∧ k.Exposed := by
  cases h with
  | opened ht hpacket hk => exact ⟨_, ht, _, ⟨_, hpacket⟩, hk⟩
  | sign i content h => cases hsigner

/-- An honest signature in a datagram the attacker delivers is in a packet that was sent: under the
    same key, or under one the attacker has. -/
theorem Injectable.signature_sent {sent : List Transmission} {d : Datagram}
    (hd : Injectable sent d) {k : Key} {s : Signed} {host : Nat} (hcarries : d.Carries k s)
    (hsigner : s.signer = .honest host) :
    ∃ t ∈ sent, ∃ k', t.datagram.Carries k' s ∧ (k' = k ∨ k'.Exposed) := by
  obtain ⟨id, hpacket⟩ := hcarries
  rcases hd.sealedWith k _ hpacket with ⟨t, ht, hsame⟩ | ⟨-, hknown⟩
  · exact ⟨t, ht, k, ⟨id, hsame⟩, Or.inl rfl⟩
  · obtain ⟨t, ht, k', hcarries', hk'⟩ := (hknown id s rfl).signature_sent hsigner
    exact ⟨t, ht, k', hcarries', Or.inr hk'⟩

/-! ### A run -/

/-- Every KX value delivered to a requester has 32 bytes, as every server session checks of those it
    gets. -/
def Net.FullLengthKX (_ : Net) : NetEvent → Prop
  | .toRequester _ d _ _ => ∀ theirKX, d.asShortString = some theirKX → theirKX.length = 32
  | .start _ => True
  | .toServer _ _ _ _ => True

/-- Every requester has a host of its own, and every server session runs in process 0 on host 9.
    All hosts know each other, by one-byte ids; a KX value is cut to 32 bytes. -/
def exampleDeployment : Deployment where
  requesterHost n := n
  serverProcess _ := 0
  processHost _ := 9
  id host := [host.toUInt8]
  knownKeys _ id := id.head?.map fun b => .honest b.toNat
  oddSharedKey p theirKX :=
    match ownerOf (theirKX.take 32) with
    | some q => .pair s(p, q)
    | none => .weak p theirKX

/-- Every host knows honest hosts only. -/
theorem exampleDeployment_trustsHonest (host : Nat) : exampleDeployment.TrustsHonest host := by
  intro id key hkey
  obtain ⟨b, -, rfl⟩ := Option.map_eq_some_iff.mp hkey
  exact ⟨_, rfl⟩

/-- What requester 0 sends after it got the KX value. -/
def requesterPacket (theirKX : List SByte) : Datagram :=
  idAndSigDatagram {} (some (exampleDeployment.sharedKey (.requester 0) theirKX)) [0]
    ⟨.honest 0, theirKX⟩

/-- What server session 0 answers to requester 0. -/
def serverPacket : Datagram :=
  idAndSigDatagram {} (some (exampleDeployment.sharedKey (.server 0) (publicKey (.requester 0)))) [9]
    ⟨.honest 9, publicKey (.requester 0) ++ processKey 0⟩

/-- A public key can be delivered at any time. -/
theorem injectable_publicKey (sent : List Transmission) (p : Party) :
    Injectable sent ⟨some (publicKey p), none⟩ where
  asShortString := by
    rintro kx hkx b hb
    obtain rfl := Option.some.inj hkx
    obtain ⟨i, rfl⟩ := mem_publicKey hb
    exact .kx p i
  sealedWith := by simp

/-- A packet that was sent can be delivered. -/
theorem injectable_of_sent {sent : List Transmission} {t : Transmission} (i : Nat)
    (h : sent[i]? = some t) (ht : t.datagram.asShortString = none) :
    Injectable sent t.datagram where
  asShortString := by simp [ht]
  sealedWith := fun _ _ hpacket => Or.inl ⟨t, List.mem_of_getElem? h, hpacket⟩

/-- A requester and a server session talk to each other. -/
theorem handshake_reachable :
    ∃ net : Net, net.Reachable exampleDeployment Net.FullLengthKX ∧
      (net.requesters 0).currentState = .success ∧
      ∃ t ∈ net.sent, t.sender = .server 0 ∧ t.datagram = serverPacket := by
  have h₀ : Net.init.Reachable exampleDeployment Net.FullLengthKX := .init
  have h₁ := h₀.step (i := NetEvent.start 0) ⟨trivial, trivial⟩ rfl
  have h₂ := h₁.step (i := NetEvent.toServer 0 ⟨some (publicKey (.requester 0)), none⟩ 33 {})
    ⟨injectable_publicKey _ _, trivial⟩ rfl
  have h₃ := h₂.step (i := NetEvent.toRequester 0 ⟨some (publicKey (.server 0)), none⟩ 33 {})
    ⟨injectable_publicKey _ _, fun theirKX hkx => by
      obtain rfl := Option.some.inj hkx
      exact length_publicKey _⟩ rfl
  have h₄ := h₃.step
    (i := NetEvent.toServer 0 (requesterPacket (publicKey (.server 0))) 200 {})
    ⟨injectable_of_sent (t := ⟨.requester 0, _⟩) 2 rfl rfl, trivial⟩ rfl
  have h₅ := h₄.step (i := NetEvent.toRequester 0 serverPacket 200 {})
    ⟨injectable_of_sent (t := ⟨.server 0, _⟩) 3 rfl rfl, by simp [Net.FullLengthKX, serverPacket,
      idAndSigDatagram]⟩ rfl
  exact ⟨_, h₅, rfl, ⟨.server 0, serverPacket⟩, List.mem_of_getElem? (i := 3) rfl, rfl, rfl⟩

end Mclog
