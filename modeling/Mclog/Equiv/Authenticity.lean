import Mclog.Equiv.KeyExchange

/-!
# Authenticity of the multicast key

A requester that reaches `Success` has opened a signature over its own KX public key and 32 more
bytes by an identity it knows.  Server sessions make such signatures, and so would a requester of the
same host that is handed this very string as its peer's KX value: unlike a server session, a
requester does not check that the value has 32 bytes.  `mcastKey_authentic` shows that this is the
only way to deceive a requester, and `mcastKey_forged` is a run in which it happens.
-/

namespace Mclog

/-- The `known_keys` of the host hold the identity. -/
def Deployment.Lists (D : Deployment) (host : Nat) (key : Identity) : Prop :=
  ∃ id, D.knownKeys host id = some key

/-- The KX value is the public key of a requester that knows the host of requester `r`, followed by
    what would be a multicast key. -/
def Deployment.Confusable (D : Deployment) (r : Nat) (theirKX : List SByte) : Prop :=
  ∃ n key, theirKX = publicKey (.requester n) ++ key ∧ key.length = crypto_kx_SESSIONKEYBYTES ∧
    D.Lists (D.requesterHost n) (.honest (D.requesterHost r))

/-- `IsValidUser` returns what follows the requester's public key in a signature by an identity it
    knows. -/
theorem KeyRequesterState.isValidUser_eq_some {D : Deployment} {n : Nat} {id : Str}
    {signedMsg : Option Signed} {mcastKey : List SByte}
    (h : isValidUser D n id signedMsg = some mcastKey) :
    ∃ s, signedMsg = some s ∧ D.Lists (D.requesterHost n) s.signer ∧
      s.content = publicKey (.requester n) ++ mcastKey ∧
      mcastKey.length = crypto_kx_SESSIONKEYBYTES := by
  unfold isValidUser at h
  split at h
  · rename_i key s hkey
    simp only at h
    split_ifs at h with hsigner hlen hown
    obtain rfl := Option.some.inj h
    refine ⟨s, rfl, ⟨id, hsigner ▸ hkey⟩, ?_, ?_⟩
    · nth_rewrite 1 [← hown]
      exact (List.take_append_drop _ _).symm
    · rw [List.length_drop, hlen]
      omega
  · cases h

namespace Net

/-- No requester is handed a confusable KX value. -/
def Unconfused (D : Deployment) (net : Net) : NetEvent → Prop
  | .toRequester r d _ _ => (net.requesters r).currentState = .kxKeySent →
    ∀ theirKX, d.asShortString = some theirKX → ¬ D.Confusable r theirKX
  | .start _ => True
  | .toServer _ _ _ _ => True

/-- The multicast key of requester `n` comes from a server session that runs on a host it knows,
    with this multicast key, and has signed it together with the requester's public key. -/
def Authentic (D : Deployment) (net : Net) (n : Nat) : Prop :=
  ∃ m, D.Lists (D.requesterHost n) (.honest (D.serverHost m)) ∧
    processKey (D.serverProcess m) = (net.requesters n).mcastKey ∧
    ∃ t ∈ net.sent, t.sender = .server m ∧ ∃ k, t.datagram.Carries k
      ⟨.honest (D.serverHost m), publicKey (.requester n) ++ (net.requesters n).mcastKey⟩

variable {D : Deployment} {net net' : Net} {e : NetEvent}

/-- Unconfused requesters sign no confusable KX value. -/
theorem not_confusable_of_sent (h : net.Reachable D (Unconfused D)) {t : Transmission}
    (ht : t ∈ net.sent) {r : Nat} (hsender : t.sender = .requester r) {k : Key} {s : Signed}
    (hcarries : t.datagram.Carries k s) : ¬ D.Confusable r s.content := by
  revert t
  refine General.Reachable.invariant
    (I := fun net => ∀ {t}, t ∈ net.sent → t.sender = .requester r → t.datagram.Carries k s →
      ¬ D.Confusable r s.content) (by simp [init]) ?_ h
  rintro net e net' - hold ⟨-, hok⟩ hs t ht hsender hcarries
  rcases mem_sent_step hs ht with hmem | hplain | hsigns
  · exact hold hmem hsender hcarries
  · obtain ⟨id, hpacket⟩ := hcarries
    rw [hplain] at hpacket
    cases hpacket
  · cases hsigns with
    | requester r' d buflen out theirKX hstate hread =>
      obtain ⟨id, hpacket⟩ := hcarries
      obtain rfl := Party.requester.inj hsender
      simp only [idAndSigDatagram, Option.map_some, Option.some.injEq, Prod.mk.injEq,
        Payload.idAndSig.injEq] at hpacket
      rw [← hpacket.2.2]
      exact hok hstate theirKX hread
    | server => cases hsender

/-- A signature over a requester's public key and 32 more bytes that is in a packet sent, by an
    identity the requester knows, was made by a server session. -/
theorem authentic_of_carries (h : net.Reachable D (Unconfused D)) {n : Nat} {t : Transmission}
    (ht : t ∈ net.sent) {k : Key} {s : Signed} (hcarries : t.datagram.Carries k s)
    (hlists : D.Lists (D.requesterHost n) s.signer)
    (hcontent : s.content = publicKey (.requester n) ++ (net.requesters n).mcastKey)
    (hlen : (net.requesters n).mcastKey.length = crypto_kx_SESSIONKEYBYTES) :
    net.Authentic D n := by
  obtain ⟨id, hpacket⟩ := id hcarries
  obtain ⟨id', theirKX, hfrom⟩ := attributed h ht k _ hpacket
  cases hsender : t.sender with
  | requester r =>
    -- The requester was handed the string as a KX value.
    rw [hsender] at hfrom
    obtain ⟨-, hpayload⟩ := hfrom
    simp only [Payload.idAndSig.injEq, Option.some.injEq] at hpayload
    refine absurd ?_ (not_confusable_of_sent h ht hsender hcarries)
    refine ⟨n, _, hcontent, hlen, ?_⟩
    rw [hpayload.2] at hlists
    exact hlists
  | server m =>
    rw [hsender] at hfrom
    obtain ⟨hkx, -, hpayload⟩ := hfrom
    simp only [Payload.idAndSig.injEq, Option.some.injEq] at hpayload
    obtain ⟨-, rfl⟩ := hpayload
    -- Both parts have 32 bytes, so what was signed splits in one way only.
    obtain ⟨rfl, hkey⟩ := List.append_inj hcontent (by rw [hkx, length_publicKey])
    refine ⟨m, hlists, hkey, t, ht, hsender, k, ?_⟩
    rw [← hkey]
    exact hcarries

/-- **The multicast key is authentic.**  However the attacker interferes, if no requester is handed
    a confusable KX value, every requester in `Success` whose host knows honest hosts only has the
    multicast key of a server session it knows, signed for it. -/
theorem mcastKey_authentic (D : Deployment) (net : Net) (h : net.Reachable D (Unconfused D))
    (n : Nat) (hhonest : D.TrustsHonest (D.requesterHost n))
    (hsuccess : (net.requesters n).currentState = .success) : net.Authentic D n := by
  revert hsuccess
  refine General.Reachable.invariant
    (I := fun net => (net.requesters n).currentState = .success → net.Authentic D n)
    (by simp [init]) ?_ h
  rintro net e net' hr hold hok hs hsuccess
  have hr' : net'.Reachable D (Unconfused D) := hr.step hok hs
  have hkeep : net'.requesters n = net.requesters n → net'.Authentic D n := by
    intro hsame
    rw [hsame] at hsuccess
    obtain ⟨m, hlists, hkey, t, ht, hsent⟩ := hold hsuccess
    refine ⟨m, hlists, by rw [hsame]; exact hkey, t, sent_subset_step hs ht, ?_⟩
    rw [hsame]
    exact hsent
  rcases requesters_step hs n with hsame | hstarted | ⟨d, buflen, out, sent, rfl, hstep⟩
  · exact hkeep hsame
  · rw [hstarted] at hsuccess
    cases hsuccess
  · cases hstep with
    | signs theirKX hstate hread hstate' =>
      rw [hstate'] at hsuccess
      cases hsuccess
    | quiet hquiet => exact hkeep (hquiet hsuccess).2
    | accepts id signedMsg hopen hvalid =>
      obtain ⟨s, rfl, hlists, hcontent, hlen⟩ := KeyRequesterState.isValidUser_eq_some hvalid
      obtain ⟨k, -, hcarries⟩ := carries_of_openDatagram hopen
      -- The signer is honest, so the signature was sent before.
      obtain ⟨id', hid'⟩ := hlists
      obtain ⟨host, hhost⟩ := hhonest id' _ hid'
      obtain ⟨t, ht, k', hcarries', -⟩ :=
        Injectable.signature_sent hok.1 hcarries hhost
      exact authentic_of_carries hr' (sent_subset_step hs ht) hcarries' ⟨id', hid'⟩ hcontent hlen

/-- A KX value of 32 bytes is not confusable. -/
theorem Unconfused.of_fullLengthKX {D : Deployment} {net : Net} {e : NetEvent}
    (h : net.FullLengthKX e) : Unconfused D net e := by
  cases e with
  | toRequester r d buflen out =>
    rintro - theirKX hread ⟨n, key, hkx, hlen, -⟩
    have hlong := congrArg List.length hkx
    rw [h theirKX hread, List.length_append, length_publicKey, hlen,
      crypto_kx_SESSIONKEYBYTES] at hlong
    omega
  | start n => trivial
  | toServer m d buflen out => trivial

/-- A requester that talked to a server session has its multicast key. -/
theorem mcastKey_authentic_handshake :
    ∃ net : Net, (net.requesters 0).currentState = .success ∧ net.Authentic exampleDeployment 0 := by
  obtain ⟨net, h, hsuccess, -⟩ := handshake_reachable
  have hnet : net.Reachable exampleDeployment (Unconfused exampleDeployment) :=
    General.Reachable.mono (fun _ _ hok => ⟨hok.1, .of_fullLengthKX hok.2⟩) h
  exact ⟨net, hsuccess, mcastKey_authentic exampleDeployment net hnet 0
    (exampleDeployment_trustsHonest 0) hsuccess⟩

/-- What the attacker hands to requester 0 as a KX value: the public key of requester 1 and a
    multicast key of its own choosing. -/
def confusableKX : List SByte := publicKey (.requester 1) ++ List.replicate 32 (.lit 0)

/-- **A forged multicast key.**  Requester 0 signs the public key of requester 1 and 32 bytes of the
    attacker's, and requester 1 takes the packet for a server's: it reaches `Success` with a key
    that no server session has sent. -/
theorem mcastKey_forged :
    ∃ net : Net, net.Reachable exampleDeployment (fun _ _ => True) ∧
      exampleDeployment.TrustsHonest (exampleDeployment.requesterHost 1) ∧
      (net.requesters 1).currentState = .success ∧
      (net.requesters 1).mcastKey = List.replicate 32 (.lit 0) ∧
      (∀ t ∈ net.sent, ∀ m, t.sender ≠ .server m) ∧ ¬ net.Authentic exampleDeployment 1 := by
  have h₀ : Net.init.Reachable exampleDeployment (fun _ _ => True) := .init
  have h₁ := h₀.step (i := NetEvent.start 0) ⟨trivial, trivial⟩ rfl
  have h₂ := h₁.step (i := NetEvent.start 1) ⟨trivial, trivial⟩ rfl
  have h₃ := h₂.step (i := NetEvent.toRequester 0 ⟨some confusableKX, none⟩ 65 {})
    ⟨{ asShortString := by
         rintro kx hkx b hb
         obtain rfl := Option.some.inj hkx
         rcases List.mem_append.mp hb with hb | hb
         · obtain ⟨i, rfl⟩ := mem_publicKey hb
           exact .kx _ i
         · rw [List.eq_of_mem_replicate hb]
           exact .lit 0
       sealedWith := by simp }, trivial⟩ rfl
  have h₄ := h₃.step (i := NetEvent.toRequester 1 ⟨some (publicKey (.requester 0)), none⟩ 33 {})
    ⟨injectable_publicKey _ _, trivial⟩ rfl
  have h₅ := h₄.step (i := NetEvent.toRequester 1 (requesterPacket confusableKX) 200 {})
    ⟨injectable_of_sent (t := ⟨.requester 0, _⟩) 2 rfl rfl, trivial⟩ rfl
  have hnone : ∀ t ∈ [Party.requester 0, .requester 1, .requester 0, .requester 1],
      ∀ m, t ≠ .server m := by
    simp
  refine ⟨_, h₅, exampleDeployment_trustsHonest 1, rfl, rfl, ?_, ?_⟩
  · intro t ht m
    exact hnone t.sender (List.mem_map_of_mem (f := Transmission.sender) ht) m
  · rintro ⟨m, -, -, t, ht, hsender, -⟩
    exact hnone t.sender (List.mem_map_of_mem (f := Transmission.sender) ht) m hsender

end Net

end Mclog
