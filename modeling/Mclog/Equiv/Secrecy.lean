import Mclog.Equiv.KeyExchange

/-!
# Secrecy of the multicast key

A server session sends its multicast key under the key it shares with the peer's KX value.  The
attacker has that key unless the KX value is a genuine public key, so the session must only answer
genuine peers.  It asks for a signature over its own KX public key by an identity it knows.  An
honest host signs that 32-byte string only as a requester that received it as its peer's KX value,
and then seals the signature with the key it shares with the session (`carries_own_publicKey`); so
no packet the attacker can open ever holds it.  The whole argument is one induction, of `Guarded`:
to know that requesters sign no secret bytes one has to know that the attacker has none.
-/

namespace Mclog

/-- The byte may be known to everyone: it belongs to no multicast key that a host which trusts
    honest hosts only gives away. -/
def SByte.Public (D : Deployment) : SByte → Prop
  | .lit _ => True
  | .kx _ _ => True
  | .mcast process _ => ¬ D.TrustsHonest (D.processHost process)

/-- The bytes of a fact are public. -/
def Fact.Public (D : Deployment) : Fact → Prop
  | .byte b => b.Public D
  | .signature s => ∀ b ∈ s.content, b.Public D

/-- `IsValidUser` accepts a signature over the session's public key by an identity it knows. -/
theorem KeyRequestClientState.isValidUser_eq_true {D : Deployment} {m : Nat} {id : Str}
    {signedMsg : Option Signed} (h : isValidUser D m id signedMsg = true) :
    ∃ key, D.knownKeys (D.serverHost m) id = some key ∧
      signedMsg = some ⟨key, publicKey (.server m)⟩ := by
  unfold isValidUser at h
  split at h
  · rename_i key s hkey
    split_ifs at h with hsigner
    refine ⟨key, hkey, ?_⟩
    rw [← hsigner, ← of_decide_eq_true h]
  · cases h

namespace Net

/-- What the induction carries. -/
structure Guarded (D : Deployment) (net : Net) : Prop where
  /-- A server session has read public bytes. -/
  theirKX : ∀ m, (net.servers m).state = .kxKeySent → ∀ b ∈ (net.servers m).theirKX, b.Public D
  /-- What is signed in a packet is public, if the attacker can open it. -/
  content : ∀ t ∈ net.sent, ∀ k s, t.datagram.Carries k s → k.Exposed → ∀ b ∈ s.content, b.Public D

variable {D : Deployment} {net net' : Net} {e : NetEvent} {ok : Net → NetEvent → Prop}

/-- The attacker knows public bytes only, if the packets it can open hold such only. -/
theorem public_of_knows {sent : List Transmission}
    (hcontent : ∀ t ∈ sent, ∀ k s, t.datagram.Carries k s → k.Exposed → ∀ b ∈ s.content, b.Public D)
    {f : Fact} (h : Knows sent f) : f.Public D := by
  induction h with
  | lit b => trivial
  | kx p i => trivial
  | opened ht hpacket hk => exact hcontent _ ht _ _ ⟨_, hpacket⟩ hk
  | content hs hb ih => exact ih _ hb
  | sign i content h ih => exact ih

/-- An honest signature over a session's public key is only in packets under the key that a
    requester shares with the session. -/
theorem carries_own_publicKey (h : net.Reachable D ok) {t : Transmission} (ht : t ∈ net.sent)
    {k : Key} {host m : Nat}
    (hcarries : t.datagram.Carries k ⟨.honest host, publicKey (.server m)⟩) :
    ∃ r, k = .pair s(.requester r, .server m) := by
  obtain ⟨id, hpacket⟩ := hcarries
  obtain ⟨id', theirKX, hfrom⟩ := attributed h ht k _ hpacket
  cases hsender : t.sender with
  | requester r =>
    rw [hsender] at hfrom
    obtain ⟨hk, hpayload⟩ := hfrom
    simp only [Payload.idAndSig.injEq, Option.some.injEq, Signed.mk.injEq] at hpayload
    rw [← hpayload.2.2, Deployment.sharedKey_publicKey] at hk
    exact ⟨r, hk⟩
  | server m' =>
    -- What a server session signs is twice as long.
    rw [hsender] at hfrom
    obtain ⟨hlen, -, hpayload⟩ := hfrom
    simp only [Payload.idAndSig.injEq, Option.some.injEq, Signed.mk.injEq] at hpayload
    have := congrArg List.length hpayload.2.2
    rw [length_publicKey, List.length_append, hlen, length_processKey] at this
    omega

/-- A session that trusts honest hosts only answers under a key the attacker does not have. -/
theorem not_exposed_of_answer (h : net.Reachable D ok) {m : Nat} {d : Datagram} {buflen : Nat}
    {id : Str} {signedMsg : Option Signed} (hd : Injectable net.sent d)
    (hhonest : D.TrustsHonest (D.serverHost m))
    (hopen : openDatagram d buflen (net.servers m).sharedKey = some (.idAndSig id signedMsg))
    (hvalid : KeyRequestClientState.isValidUser D m id signedMsg = true) {k : Key}
    (hk : (net.servers m).sharedKey = some k) : ¬ k.Exposed := by
  obtain ⟨key, hkey, rfl⟩ := KeyRequestClientState.isValidUser_eq_true hvalid
  obtain ⟨host, rfl⟩ := hhonest id key hkey
  obtain ⟨k', hk', hcarries⟩ := carries_of_openDatagram hopen
  obtain rfl : k' = k := Option.some.inj (hk'.symm.trans hk)
  obtain ⟨t, ht, k'', hcarries', hsame | hexposed⟩ := hd.signature_sent hcarries rfl
  · obtain ⟨r, hpair⟩ := carries_own_publicKey h ht hcarries'
    rw [← hsame, hpair]
    exact not_false
  · -- The attacker cannot have the signature.
    obtain ⟨r, rfl⟩ := carries_own_publicKey h ht hcarries'
    exact hexposed.elim

/-- **Every reachable network is guarded.** -/
theorem guarded (h : net.Reachable D ok) : net.Guarded D := by
  refine General.Reachable.invariant (I := Guarded D) ⟨by simp [init], by simp [init]⟩ ?_ h
  rintro net e net' hr ⟨hkx, hcontent⟩ ⟨hadm, -⟩ hs
  -- The string a delivered datagram starts with is public.
  have hread : ∀ d theirKX, Injectable net.sent d → d.asShortString = some theirKX →
      ∀ b ∈ theirKX, b.Public D := by
    intro d theirKX hd hstring b hb
    exact public_of_knows hcontent (hd.asShortString theirKX hstring b hb)
  constructor
  · intro m hstate'
    rcases servers_step hs m with hsame | ⟨d, buflen, out, sent, rfl, hstep⟩
    · rw [hsame] at hstate' ⊢
      exact hkx m hstate'
    · cases hstep with
      | greets hstate _ hgreet hplain => exact hread d _ hadm (hgreet hstate').1
      | signs id signedMsg hstate hopen hvalid hidSent hkey =>
        rw [hidSent] at hstate'
        cases hstate'
      | quiet hstate _ hsent hsame hkey =>
        rw [hsame]
        exact hkx m (hsent hstate')
  · intro t ht k s hcarries hk
    rcases mem_sent_step hs ht with hmem | hplain | hsigns
    · exact hcontent t hmem k s hcarries hk
    · obtain ⟨id, hpacket⟩ := hcarries
      rw [hplain] at hpacket
      cases hpacket
    · obtain ⟨id, hpacket⟩ := hcarries
      cases hsigns with
      | requester r d buflen out theirKX hstate hstring =>
        simp only [idAndSigDatagram, Option.map_some, Option.some.injEq, Prod.mk.injEq,
          Payload.idAndSig.injEq] at hpacket
        obtain ⟨-, -, rfl⟩ := hpacket
        exact hread d theirKX hadm hstring
      | server m d buflen out id signedMsg hstate hopen hvalid =>
        obtain ⟨-, hkey⟩ := serversKeyed hr m hstate
        simp only [idAndSigDatagram, hkey, Option.map_some, Option.some.injEq, Prod.mk.injEq,
          Payload.idAndSig.injEq] at hpacket
        obtain ⟨rfl, -, rfl⟩ := hpacket
        intro b hb
        rcases List.mem_append.mp hb with hb | hb
        · exact hkx m hstate b hb
        · -- The multicast key is sent under a key the attacker has, so it is no secret.
          obtain ⟨i, rfl⟩ := mem_processKey hb
          intro hhonest
          exact not_exposed_of_answer hr hadm hhonest hopen hvalid hkey hk

/-- Session `m` has opened, under its own shared key, a signature over its own public key by an
    identity it knows. -/
def Authenticated (D : Deployment) (net : Net) (m : Nat) : Prop :=
  ∃ d buflen id key, (m, d) ∈ net.received ∧ D.knownKeys (D.serverHost m) id = some key ∧
    openDatagram d buflen (net.servers m).sharedKey =
      some (.idAndSig id (some ⟨key, publicKey (.server m)⟩))

/-- A step keeps what was received. -/
theorem received_subset_step (hs : net.step D e = some net') : net.received ⊆ net'.received := by
  intro r hr
  cases e with
  | start n =>
    simp only [step] at hs
    split_ifs at hs
    obtain rfl := Option.some.inj hs
    exact hr
  | toRequester n d buflen out =>
    simp only [step, Option.map_eq_some_iff] at hs
    obtain ⟨p, -, rfl⟩ := hs
    exact hr
  | toServer m d buflen out =>
    simp only [step, Option.map_eq_some_iff] at hs
    obtain ⟨p, -, rfl⟩ := hs
    exact List.mem_append_left _ hr

/-- A datagram delivered to a server session is received. -/
theorem mem_received_step {m : Nat} {d : Datagram} {buflen : Nat} {out : Outcome}
    (hs : net.step D (.toServer m d buflen out) = some net') : (m, d) ∈ net'.received := by
  simp only [step, Option.map_eq_some_iff] at hs
  obtain ⟨p, -, rfl⟩ := hs
  exact List.mem_append_right _ (List.mem_singleton.mpr rfl)

/-- A session that is past `Initial` stays so, and keeps its shared key. -/
theorem sharedKey_step (hs : net.step D e = some net') {m : Nat}
    (hstate : (net.servers m).state ≠ .initial) :
    (net'.servers m).state ≠ .initial ∧ (net'.servers m).sharedKey = (net.servers m).sharedKey := by
  rcases servers_step hs m with hsame | ⟨d, buflen, out, sent, -, hstep⟩
  · rw [hsame]
    exact ⟨hstate, rfl⟩
  · cases hstep with
    | greets hinitial => exact absurd hinitial hstate
    | signs id signedMsg _ hopen hvalid hidSent hkey => exact ⟨by simp [hidSent], hkey⟩
    | quiet _ hstate' _ _ hkey => exact ⟨hstate', hkey⟩

/-- **Every packet of a server session is an answer** to a peer it has authenticated. -/
theorem authenticated_of_sent (h : net.Reachable D ok) {t : Transmission} (ht : t ∈ net.sent)
    {m : Nat} (hsender : t.sender = .server m) (hpacket : t.datagram.sealedWith ≠ none) :
    net.Authenticated D m := by
  suffices hboth : ∀ t ∈ net.sent, t.sender = .server m → t.datagram.sealedWith ≠ none →
      (net.servers m).state ≠ .initial ∧ net.Authenticated D m from
    (hboth t ht hsender hpacket).2
  refine General.Reachable.invariant (I := fun net => ∀ t ∈ net.sent, t.sender = .server m →
    t.datagram.sealedWith ≠ none → (net.servers m).state ≠ .initial ∧ net.Authenticated D m)
    (by simp [init]) ?_ h
  rintro net e net' - hold - hs t ht hsender hpacket
  rcases mem_sent_step hs ht with hmem | hplain | hsigns
  · obtain ⟨hstate, d, buflen, id, key, hreceived, hkey, hopen⟩ := hold t hmem hsender hpacket
    obtain ⟨hstate', hshared⟩ := sharedKey_step hs hstate
    refine ⟨hstate', d, buflen, id, key, received_subset_step hs hreceived, hkey, ?_⟩
    rw [hshared]
    exact hopen
  · exact absurd hplain hpacket
  · cases hsigns with
    | requester => cases hsender
    | server m' d buflen out id signedMsg hstate hopen hvalid =>
      obtain rfl := Party.server.inj hsender
      obtain ⟨key, hkey, rfl⟩ := KeyRequestClientState.isValidUser_eq_true hvalid
      obtain ⟨hstate', hshared⟩ := sharedKey_step hs (m := m') (by simp [hstate])
      refine ⟨hstate', d, buflen, id, key, mem_received_step hs, hkey, ?_⟩
      rw [hshared]
      exact hopen

/-- **The multicast key is secret.**  However the attacker interferes, it never learns a byte of the
    multicast key of a process whose host trusts honest hosts only; and a server session sends its
    id and signature only after it has authenticated its peer. -/
theorem mcastKey_secret (D : Deployment) (net : Net) (h : net.Reachable D fun _ _ => True) :
    (∀ process, D.TrustsHonest (D.processHost process) →
      ∀ i, ¬ Knows net.sent (.byte (.mcast process i))) ∧
    ∀ t ∈ net.sent, ∀ m, t.sender = .server m → t.datagram.sealedWith ≠ none →
      net.Authenticated D m := by
  refine ⟨?_, fun t ht m => authenticated_of_sent h ht⟩
  intro process hhonest i hknown
  exact public_of_knows (guarded h).content hknown hhonest

/-- In a run where a server session sends its multicast key, the attacker does not learn it. -/
theorem mcastKey_secret_handshake :
    ∃ net : Net, (∃ t ∈ net.sent, t.sender = .server 0 ∧ t.datagram = serverPacket) ∧
      (∀ i, ¬ Knows net.sent (.byte (.mcast 0 i))) ∧ net.Authenticated exampleDeployment 0 := by
  obtain ⟨net, h, -, t, ht, hsender, hdatagram⟩ := handshake_reachable
  have hnet : net.Reachable exampleDeployment fun _ _ => True :=
    General.Reachable.mono (fun _ _ hok => ⟨hok.1, trivial⟩) h
  obtain ⟨hsecret, hanswers⟩ := mcastKey_secret exampleDeployment net hnet
  refine ⟨net, ⟨t, ht, hsender, hdatagram⟩, hsecret 0 (exampleDeployment_trustsHonest 9), ?_⟩
  exact hanswers t ht 0 hsender (by simp [hdatagram, serverPacket, idAndSigDatagram])

end Net

end Mclog
