import Mclog.Equiv.Authenticity
import Mclog.Equiv.KeyRequestListener
import Mclog.Equiv.Secrecy
import Mclog.KeyNetwork

/-!
# What a network of requesters and listeners guarantees

A listener stores its sessions by endpoint, makes a key pair for every datagram, and drops sessions
that succeed or expire; `GetKey` calls the state functions of its requester from a loop.  All of
this is a run of the key exchange (`Refines`, `refines`): no two sessions in use share a key pair,
and those not yet made are still in their initial state.  So what `GetKey` returns is authentic, and
secret if the host it comes from trusts honest hosts only (`getKey_authentic`).
-/

namespace Mclog

open General

/-! ### The listener -/

/-- A session calls the state functions of its client with its own key pair. -/
theorem ClientSession.processPacket_client {D : Deployment} {st st' : ClientSession} {r : Received}
    {rc : Bool} {sent : List Datagram} (h : st.processPacket D r = some (rc, st', sent)) :
    st.client.processPacket D st.keyPair r.datagram r.recvrc.toNat r.out =
        some (rc, st'.client, sent) ∧
      st'.keyPair = st.keyPair := by
  obtain ⟨p, hp, heq⟩ := Option.map_eq_some_iff.mp h
  obtain ⟨rfl, hrest⟩ := Prod.mk.inj heq
  obtain ⟨rfl, rfl⟩ := Prod.mk.inj hrest
  exact ⟨hp, rfl⟩

namespace KeyRequestListener

variable {D : Deployment} {l l' : KeyRequestListener} {src : UdpEndpoint} {r : Received}
  {replies : List (UdpEndpoint × Datagram)}

/-- A datagram is handled, or there is none and nothing happens. -/
theorem branch_cases (h : l.branch D src r = .ok (l', replies)) :
    (r.recvrc > 0 ∧ l.handle D src r = .ok (l', replies)) ∨ (l' = l ∧ replies = []) := by
  have heq : ∀ {x : KeyRequestListener × List (UdpEndpoint × Datagram)},
      (Except.ok (l, []) : Except ListenerStop _) = .ok x → x = (l, []) :=
    fun hx => (Except.ok.inj hx).symm
  cases src with
  | v4 addr port =>
    unfold branch ipv4Branch at h
    dsimp only at h
    split_ifs at h with hzero hneg
    · exact Or.inl ⟨by omega, h⟩
    · exact Or.inr (Prod.mk.inj (heq h))
  | v6 addr port =>
    unfold branch ipv6Branch at h
    dsimp only at h
    split_ifs at h with hpos hneg
    · exact Or.inl ⟨hpos, h⟩
    · exact Or.inr (Prod.mk.inj (heq h))

/-- What handling a datagram does: the session of its endpoint processes it, and is dropped if it
    succeeds. -/
theorem handle_cases (h : l.handle D src r = .ok (l', replies)) :
    ∃ rc st sent, (l.clientFor src r).processPacket D r = some (rc, st, sent) ∧
      replies = sent.map (fun d => (src, d)) ∧ l'.keyPairs = l.keyPairs + 1 ∧
      l'.clients = Function.update l.clients src (if rc && st.success then none else some st) := by
  unfold handle at h
  cases hp : (l.clientFor src r).processPacket D r with
  | none =>
    rw [hp] at h
    cases h
  | some p =>
    rw [hp] at h
    dsimp only at h
    refine ⟨p.1, p.2.1, p.2.2, rfl, ?_⟩
    split_ifs at h with hdone
    · obtain ⟨rfl, rfl⟩ := Prod.mk.inj (Except.ok.inj h)
      exact ⟨rfl, rfl, by rw [if_pos hdone]⟩
    · obtain ⟨rfl, rfl⟩ := Prod.mk.inj (Except.ok.inj h)
      exact ⟨rfl, rfl, by rw [if_neg hdone]⟩

end KeyRequestListener

/-! ### The requester -/

namespace KeyRequester

@[simp] theorem finish_state (q : KeyRequester) (time : Int) : (q.finish time).state = q.state := by
  unfold finish
  split_ifs <;> rfl

@[simp] theorem loopHead_state (q : KeyRequester) (time : Int) :
    (q.loopHead time).state = q.state := by
  unfold loopHead
  split_ifs
  · rfl
  · exact finish_state q time

/-- What the phase of a requester says about its state: nothing has happened before `GetKey` is
    called, and a key that was returned is the one accepted in `Success`. -/
structure Consistent (q : KeyRequester) : Prop where
  idle : q.phase = .idle → q.state = {}
  returned : ∀ key, q.phase = .returned key → key.value ≠ [] →
    q.state.currentState = .success ∧ key.value = q.state.mcastKey

theorem consistent_of_waiting {q : KeyRequester} (h : q.phase = .waiting) : q.Consistent where
  idle hidle := by
    rw [h] at hidle
    cases hidle
  returned key hkey := by
    rw [h] at hkey
    cases hkey

theorem consistent_finish (q : KeyRequester) (time : Int) : (q.finish time).Consistent := by
  unfold finish
  split_ifs with hsuccess
  · refine ⟨by simp, ?_⟩
    rintro key hkey -
    obtain rfl := GetKeyPhase.returned.inj hkey
    exact ⟨hsuccess, rfl⟩
  · refine ⟨by simp, ?_⟩
    intro key hkey hne
    obtain rfl := GetKeyPhase.returned.inj hkey
    exact absurd rfl hne

theorem consistent_loopHead {q : KeyRequester} (h : q.phase = .waiting) (time : Int) :
    (q.loopHead time).Consistent := by
  unfold loopHead
  split_ifs
  · exact consistent_of_waiting h
  · exact consistent_finish q time

/-- `GetKey` sends its public key and waits, or does nothing. -/
theorem open4_cases (q : KeyRequester) (n : Nat) (now : Int) (socket sendTo : Bool) :
    ((q.open4 n now socket sendTo).1.state = q.state ∧ (q.open4 n now socket sendTo).2 = []) ∨
      ((q.open4 n now socket sendTo).1.state = { q.state with currentState := .kxKeySent } ∧
        (q.open4 n now socket sendTo).2 = [⟨some (publicKey (.requester n)), none⟩]) := by
  unfold open4
  dsimp only
  split_ifs
  · exact Or.inr ⟨rfl, rfl⟩
  · exact Or.inl ⟨rfl, rfl⟩
  · exact Or.inl ⟨rfl, rfl⟩

theorem consistent_open4 {q : KeyRequester} (n : Nat) (now : Int) (socket sendTo : Bool) :
    (q.open4 n now socket sendTo).1.Consistent := by
  have hempty : ∀ state : KeyRequesterState,
      Consistent ⟨state, now, .returned ⟨[], now, 0⟩⟩ := by
    refine fun state => ⟨by simp, fun key hkey hne => ?_⟩
    obtain rfl := GetKeyPhase.returned.inj hkey
    exact absurd rfl hne
  unfold open4
  dsimp only
  split_ifs
  · exact consistent_of_waiting rfl
  · exact hempty q.state
  · exact hempty q.state

variable {D : Deployment} {n : Nat} {q q' : KeyRequester} {t : GetKeyTurn} {sent : List Datagram}

/-- What one turn does to the state of a requester: nothing, or it processes a datagram. -/
theorem machine_cases (h : machine D n q t = some (q', sent)) :
    (q'.state = q.state ∧ sent = []) ∨
      ∃ recvrc d out time rc, t = .received recvrc d out time ∧ recvrc > 0 ∧ q.phase = .waiting ∧
        q.state.processPacket D n d recvrc.toNat out = some (rc, q'.state, sent) := by
  unfold machine at h
  cases hphase : q.phase with
  | idle | returned =>
    rw [hphase] at h
    obtain ⟨rfl, rfl⟩ := Prod.mk.inj (Option.some.inj h)
    exact Or.inl ⟨rfl, rfl⟩
  | waiting =>
    rw [hphase] at h
    dsimp only at h
    cases t with
    | silent time =>
      obtain ⟨rfl, rfl⟩ := Prod.mk.inj (Option.some.inj h)
      exact Or.inl ⟨finish_state q time, rfl⟩
    | received recvrc d out time =>
      unfold turn at h
      dsimp only at h
      split_ifs at h with hpos
      · obtain ⟨r, hr, heq⟩ := Option.map_eq_some_iff.mp h
        obtain ⟨rfl, rfl⟩ := Prod.mk.inj heq
        refine Or.inr ⟨recvrc, d, out, time, r.1, rfl, hpos, rfl, ?_⟩
        rw [hr]
        split_ifs <;> simp
      · obtain ⟨rfl, rfl⟩ := Prod.mk.inj (Option.some.inj h)
        exact Or.inl ⟨rfl, rfl⟩

theorem consistent_machine (hq : q.Consistent) (h : machine D n q t = some (q', sent)) :
    q'.Consistent := by
  unfold machine at h
  cases hphase : q.phase with
  | idle | returned =>
    rw [hphase] at h
    obtain ⟨rfl, -⟩ := Prod.mk.inj (Option.some.inj h)
    exact hq
  | waiting =>
    rw [hphase] at h
    dsimp only at h
    cases t with
    | silent time =>
      obtain ⟨rfl, -⟩ := Prod.mk.inj (Option.some.inj h)
      exact consistent_finish q time
    | received recvrc d out time =>
      unfold turn at h
      dsimp only at h
      split_ifs at h with hpos
      · obtain ⟨r, -, heq⟩ := Option.map_eq_some_iff.mp h
        obtain ⟨rfl, -⟩ := Prod.mk.inj heq
        split_ifs
        · exact consistent_loopHead (by exact hphase) time
        · exact consistent_finish _ time
      · obtain ⟨rfl, -⟩ := Prod.mk.inj (Option.some.inj h)
        exact hq

end KeyRequester

/-! ### The refinement -/

namespace KeyNetwork

/-- The network refines a state of the key exchange: it has sent the same, its requesters are in the
    same states, and every stored session is the server session of its key pair. -/
structure Refines (D : Deployment) (sys : KeyNetwork) (net : Net) : Prop where
  sent : net.sent = sys.sent
  requesters : ∀ n, net.requesters n = (sys.requesters n).state
  consistent : ∀ n, (sys.requesters n).Consistent
  stored : ∀ p src st, (sys.listeners p).clients src = some st →
    st.keyPair < sys.keyPairs ∧ D.serverProcess st.keyPair = p ∧ net.servers st.keyPair = st.client
  /-- Sessions of two endpoints have two key pairs. -/
  apart : ∀ p src src' st st', (sys.listeners p).clients src = some st →
    (sys.listeners p).clients src' = some st' → st.keyPair = st'.keyPair → src = src'
  unmade : ∀ m, sys.keyPairs ≤ m → net.servers m = {}

/-- No requester is handed a confusable KX value. -/
def Unconfused (D : Deployment) (sys : KeyNetwork) : KeyEvent → Prop
  | .turn n (.received recvrc d _ _) => recvrc > 0 → (sys.requesters n).phase = .waiting →
    (sys.requesters n).state.currentState = .kxKeySent →
      ∀ theirKX, d.asShortString = some theirKX → ¬ D.Confusable n theirKX
  | .turn _ (.silent _) => True
  | .getKey _ _ _ _ => True
  | .received _ _ _ => True
  | .clearExpired _ _ => True

variable {D : Deployment} {sys sys' : KeyNetwork} {net : Net}

/-- The session that processes a datagram is the server session of its key pair, and no other
    endpoint of the process has this key pair. -/
theorem Refines.clientFor (hR : Refines D sys net) {p : Nat} (hp : D.serverProcess sys.keyPairs = p)
    (src : UdpEndpoint) (r : Received) :
    ((sys.listener p).clientFor src r).keyPair < sys.keyPairs + 1 ∧
      D.serverProcess ((sys.listener p).clientFor src r).keyPair = p ∧
      net.servers ((sys.listener p).clientFor src r).keyPair =
        ((sys.listener p).clientFor src r).client ∧
      ∀ src' st', (sys.listeners p).clients src' = some st' →
        st'.keyPair = ((sys.listener p).clientFor src r).keyPair → src' = src := by
  unfold KeyRequestListener.clientFor
  cases hst : (sys.listener p).clients src with
  | none =>
    -- A new session gets the next key pair.
    refine ⟨Nat.lt_succ_self _, hp, hR.unmade _ le_rfl, ?_⟩
    intro src' st' hst' heq
    exact absurd heq (hR.stored p src' st' hst').1.ne
  | some st =>
    obtain ⟨hlt, hproc, hserver⟩ := hR.stored p src st hst
    exact ⟨by simpa using hlt.le, hproc, hserver,
      fun src' st' hst' heq => hR.apart p src' src st' st hst' hst heq⟩

/-- A requester changes, and what it sends is sent. -/
theorem Refines.update_requester (hR : Refines D sys net) (n : Nat) {q : KeyRequester}
    (hq : q.Consistent) (sent : List Transmission) :
    Refines D
      { sys with requesters := Function.update sys.requesters n q, sent := sys.sent ++ sent }
      { net with
        requesters := Function.update net.requesters n q.state
        sent := net.sent ++ sent } where
  sent := by rw [hR.sent]
  requesters n' := by
    show Function.update net.requesters n q.state n' =
      (Function.update sys.requesters n q n').state
    by_cases hn : n' = n
    · subst hn
      rw [Function.update_self, Function.update_self]
    · rw [Function.update_of_ne hn, Function.update_of_ne hn, hR.requesters n']
  consistent n' := by
    show (Function.update sys.requesters n q n').Consistent
    by_cases hn : n' = n
    · subst hn
      rw [Function.update_self]
      exact hq
    · rw [Function.update_of_ne hn]
      exact hR.consistent n'
  stored := hR.stored
  apart := hR.apart
  unmade := hR.unmade

/-- A requester changes, but not its state, and sends nothing. -/
theorem Refines.update_phase (hR : Refines D sys net) {n : Nat} {q : KeyRequester}
    (hq : q.Consistent) (hstate : q.state = (sys.requesters n).state) :
    Refines D
      { sys with
        requesters := Function.update sys.requesters n q
        sent := sys.sent ++ [] } net := by
  have h := hR.update_requester n hq []
  rw [hstate, ← hR.requesters n, Function.update_eq_self] at h
  simp only [List.append_nil] at h ⊢
  exact h

/-- Listeners may drop sessions. -/
theorem Refines.drop (hR : Refines D sys net) {listeners : Nat → KeyRequestListener}
    (hsub : ∀ p src st, (listeners p).clients src = some st →
      (sys.listeners p).clients src = some st) :
    Refines D { sys with listeners } net where
  sent := hR.sent
  requesters := hR.requesters
  consistent := hR.consistent
  stored p src st hst := hR.stored p src st (hsub p src st hst)
  apart p src src' st st' hst hst' := hR.apart p src src' st st' (hsub p src st hst)
    (hsub p src' st' hst')
  unmade := hR.unmade

/-- The sessions of a listener that is replaced by one with some of its sessions. -/
theorem clients_update {listeners : Nat → KeyRequestListener} {p : Nat} {l : KeyRequestListener}
    (hl : ∀ src st, l.clients src = some st → (listeners p).clients src = some st) (p' : Nat)
    (src : UdpEndpoint) (st : ClientSession)
    (hst : (Function.update listeners p l p').clients src = some st) :
    (listeners p').clients src = some st := by
  by_cases hp : p' = p
  · subst hp
    rw [Function.update_self] at hst
    exact hl src st hst
  · rw [Function.update_of_ne hp] at hst
    exact hst

/-- A session processes a datagram, and what it sends is sent.  Its listener stores it again or
    not. -/
theorem Refines.update_session (hR : Refines D sys net) {p : Nat}
    (hp : D.serverProcess sys.keyPairs = p) {src : UdpEndpoint} {r : Received}
    {st : ClientSession} (hkey : st.keyPair = ((sys.listener p).clientFor src r).keyPair)
    {l : KeyRequestListener} {stored : Option ClientSession}
    (hstored : ∀ st', stored = some st' → st' = st)
    (hclients : l.clients = Function.update (sys.listeners p).clients src stored)
    (sent : List Transmission) (received : List (Nat × Datagram)) :
    Refines D
      { sys with
        listeners := Function.update sys.listeners p l
        keyPairs := sys.keyPairs + 1
        sent := sys.sent ++ sent }
      { net with
        servers := Function.update net.servers st.keyPair st.client
        sent := net.sent ++ sent
        received } := by
  obtain ⟨hlt, hproc, -, hunique⟩ := hR.clientFor hp src r
  rw [← hkey] at hlt hproc hunique
  -- A session stored after the step is the one that processed the datagram, or an old one.
  have hcases : ∀ {p' src' st'}, (Function.update sys.listeners p l p').clients src' = some st' →
      (p' = p ∧ src' = src ∧ st' = st) ∨
        (st'.keyPair ≠ st.keyPair ∧ (sys.listeners p').clients src' = some st') := by
    intro p' src' st' hst'
    by_cases hpp : p' = p
    · subst hpp
      rw [Function.update_self, hclients] at hst'
      by_cases hsrc : src' = src
      · subst hsrc
        rw [Function.update_self] at hst'
        exact Or.inl ⟨rfl, rfl, hstored st' hst'⟩
      · rw [Function.update_of_ne hsrc] at hst'
        exact Or.inr ⟨fun heq => hsrc (hunique src' st' hst' heq), hst'⟩
    · rw [Function.update_of_ne hpp] at hst'
      refine Or.inr ⟨fun heq => hpp ?_, hst'⟩
      rw [← (hR.stored p' src' st' hst').2.1, heq, hproc]
  refine ⟨by rw [hR.sent], hR.requesters, hR.consistent, ?_, ?_, ?_⟩
  · intro p' src' st' hst'
    rcases hcases hst' with ⟨rfl, -, rfl⟩ | ⟨hne, hold⟩
    · exact ⟨hlt, hproc, Function.update_self _ _ _⟩
    · obtain ⟨hlt', hproc', hserver'⟩ := hR.stored p' src' st' hold
      refine ⟨Nat.lt_succ_of_lt hlt', hproc', ?_⟩
      show Function.update net.servers st.keyPair st.client st'.keyPair = st'.client
      rw [Function.update_of_ne hne]
      exact hserver'
  · intro p' src₁ src₂ st₁ st₂ h₁ h₂ heq
    rcases hcases h₁ with ⟨-, hsrc₁, rfl⟩ | ⟨hne₁, hold₁⟩ <;>
      rcases hcases h₂ with ⟨-, hsrc₂, rfl⟩ | ⟨hne₂, hold₂⟩
    · rw [hsrc₁, hsrc₂]
    · exact absurd heq.symm hne₂
    · exact absurd heq hne₁
    · exact hR.apart p' src₁ src₂ st₁ st₂ hold₁ hold₂ heq
  · intro m hm
    show Function.update net.servers st.keyPair st.client m = {}
    have hne : m ≠ st.keyPair := (lt_of_lt_of_le hlt hm).ne'
    rw [Function.update_of_ne hne]
    exact hR.unmade m (Nat.le_of_succ_le hm)

section

variable {e : KeyEvent}

/-- The step is one of the key exchange, or none. -/
def Matched (D : Deployment) (net : Net) (sys' : KeyNetwork) : Prop :=
  Refines D sys' net ∨ ∃ e' net', (net.Admissible e' ∧ net.Unconfused D e') ∧
    net.step D e' = some net' ∧ Refines D sys' net'

theorem matched_getKey (hR : Refines D sys net) {n : Nat} {now : Int} {socket sendTo : Bool}
    (hs : sys.step D (.getKey n now socket sendTo) = some sys') : Matched D net sys' := by
  simp only [step] at hs
  split_ifs at hs with hidle
  obtain rfl := Option.some.inj hs
  have hconsistent := KeyRequester.consistent_open4 (q := sys.requesters n) n now socket sendTo
  rcases KeyRequester.open4_cases (sys.requesters n) n now socket sendTo with
    ⟨hstate, hsent⟩ | ⟨hstate, hsent⟩
  · rw [hsent]
    exact Or.inl (hR.update_phase hconsistent hstate)
  · rw [hsent]
    refine Or.inr ⟨.start n, _, ⟨trivial, trivial⟩, ?_, hR.update_requester n hconsistent _⟩
    simp only [Net.step]
    rw [if_pos (by rw [hR.requesters n, (hR.consistent n).idle hidle]), hstate, hR.requesters n]
    rfl

theorem matched_turn (hR : Refines D sys net) {n : Nat} {t : GetKeyTurn}
    (hok : sys.Admissible D (.turn n t) ∧ sys.Unconfused D (.turn n t))
    (hs : sys.step D (.turn n t) = some sys') : Matched D net sys' := by
  obtain ⟨⟨q, sent⟩, hq, rfl⟩ := Option.map_eq_some_iff.mp hs
  have hconsistent := KeyRequester.consistent_machine (hR.consistent n) hq
  rcases KeyRequester.machine_cases hq with ⟨hstate, rfl⟩ | hprocess
  · exact Or.inl (hR.update_phase hconsistent hstate)
  · obtain ⟨recvrc, d, out, time, rc, rfl, hpos, hphase, hpacket⟩ := hprocess
    refine Or.inr ⟨.toRequester n d recvrc.toNat out, _, ⟨?_, ?_⟩, ?_,
      hR.update_requester n hconsistent _⟩
    · rw [Net.Admissible, hR.sent]
      exact hok.1 hpos
    · intro hstate
      rw [hR.requesters n] at hstate
      exact hok.2 hpos hphase hstate
    · simp only [Net.step]
      rw [hR.requesters n, hpacket]
      rfl

theorem matched_received (hR : Refines D sys net) {p : Nat} {src : UdpEndpoint} {r : Received}
    (hok : sys.Admissible D (.received p src r)) (hs : sys.step D (.received p src r) = some sys') :
    Matched D net sys' := by
  simp only [step] at hs
  cases hbranch : (sys.listener p).branch D src r with
  | error stop =>
    rw [hbranch] at hs
    cases hs
  | ok result =>
    obtain ⟨l, replies⟩ := result
    rw [hbranch] at hs
    obtain rfl := Option.some.inj hs
    rcases KeyRequestListener.branch_cases hbranch with ⟨hpos, hhandle⟩ | ⟨rfl, rfl⟩
    · obtain ⟨hinjectable, hp⟩ := hok hpos
      obtain ⟨rc, st, sent, hprocess, rfl, hkeyPairs, hclients⟩ :=
        KeyRequestListener.handle_cases hhandle
      obtain ⟨hclient, hkey⟩ := ClientSession.processPacket_client hprocess
      have hserver := (hR.clientFor hp src r).2.2.1
      rw [← hkey] at hclient hserver
      have hstored : ∀ st', (if rc && st.success then none else some st) = some st' → st' = st := by
        intro st' hst'
        split_ifs at hst'
        exact (Option.some.inj hst').symm
      have hrefines := hR.update_session hp hkey hstored hclients
        (sent.map fun d => ⟨.server st.keyPair, d⟩) (net.received ++ [(st.keyPair, r.datagram)])
      rw [List.map_map, hkeyPairs, ← hkey]
      refine Or.inr ⟨.toServer st.keyPair r.datagram r.recvrc.toNat r.out, _, ⟨?_, trivial⟩, ?_,
        hrefines⟩
      · rw [Net.Admissible, hR.sent]
        exact hinjectable
      · simp only [Net.step]
        rw [hserver, hclient]
        rfl
    · -- There was no datagram, and the listener has the same sessions.
      left
      show Refines D { sys with listeners := _, sent := sys.sent ++ [] } net
      rw [List.append_nil]
      exact hR.drop (clients_update fun src st hst => hst)

/-- **Every step is one of the key exchange, or none.** -/
theorem matched_step (hR : Refines D sys net) (hok : sys.Admissible D e ∧ sys.Unconfused D e)
    (hs : sys.step D e = some sys') : Matched D net sys' := by
  cases e with
  | getKey n now socket sendTo => exact matched_getKey hR hs
  | turn n t => exact matched_turn hR hok hs
  | received p src r => exact matched_received hR hok.1 hs
  | clearExpired p now =>
    obtain rfl := Option.some.inj hs
    refine Or.inl (hR.drop (clients_update fun src st hst => ?_))
    exact (Option.filter_eq_some_iff.mp hst).1

/-- **The network refines the key exchange.** -/
theorem refines (h : sys.Reachable D (Unconfused D)) :
    ∃ net : Net, net.Reachable D (Net.Unconfused D) ∧ Refines D sys net := by
  refine General.Reachable.simulates (R := Refines D) ?_ (fun s t e s' hR => matched_step hR) h
  exact ⟨rfl, fun n => rfl, fun n => ⟨fun _ => rfl, by simp [init]⟩, by simp [init], by simp [init],
    fun m _ => rfl⟩

end

end KeyNetwork

/-! ### The key returned -/

/-- A requester in `Success` has opened a signature over its public key and its multicast key, which
    was sent in a packet. -/
theorem Net.carried_of_success {D : Deployment} {net : Net} {ok : Net → NetEvent → Prop}
    (h : net.Reachable D ok) (n : Nat) (hhonest : D.TrustsHonest (D.requesterHost n))
    (hsuccess : (net.requesters n).currentState = .success) :
    ∃ t ∈ net.sent, ∃ k s, t.datagram.Carries k s ∧ D.Lists (D.requesterHost n) s.signer ∧
      s.content = publicKey (.requester n) ++ (net.requesters n).mcastKey ∧
      (net.requesters n).mcastKey.length = crypto_kx_SESSIONKEYBYTES := by
  revert hsuccess
  refine General.Reachable.invariant (I := fun net => (net.requesters n).currentState = .success →
    ∃ t ∈ net.sent, ∃ k s, t.datagram.Carries k s ∧ D.Lists (D.requesterHost n) s.signer ∧
      s.content = publicKey (.requester n) ++ (net.requesters n).mcastKey ∧
      (net.requesters n).mcastKey.length = crypto_kx_SESSIONKEYBYTES) (by simp [init]) ?_ h
  rintro net e net' - hold ⟨hadmissible, -⟩ hs hsuccess
  have hkeep (hsame : net'.requesters n = net.requesters n) :
      ∃ t ∈ net'.sent, ∃ k s, t.datagram.Carries k s ∧ D.Lists (D.requesterHost n) s.signer ∧
        s.content = publicKey (.requester n) ++ (net'.requesters n).mcastKey ∧
        (net'.requesters n).mcastKey.length = crypto_kx_SESSIONKEYBYTES := by
    rw [hsame] at hsuccess ⊢
    obtain ⟨t, ht, hcarried⟩ := hold hsuccess
    exact ⟨t, sent_subset_step hs ht, hcarried⟩
  rcases requesters_step hs n with hsame | hstarted | ⟨d, buflen, out, sent, rfl, hstep⟩
  · exact hkeep hsame
  · rw [hstarted] at hsuccess
    cases hsuccess
  · cases hstep with
    | signs theirKX hstate hread hstate' =>
      rw [hstate'] at hsuccess
      cases hsuccess
    | quiet hquiet => exact hkeep (hquiet hsuccess).2
    | accepts id signedMsg hopen hvalid =>
      obtain ⟨s, rfl, hlists, hcontent, hlen⟩ := KeyRequesterState.isValidUser_eq_some hvalid
      obtain ⟨k, -, hcarries⟩ := carries_of_openDatagram hopen
      -- The signer is honest, so it sent the signature before.
      obtain ⟨id', hid'⟩ := hlists
      obtain ⟨host, hhost⟩ := hhonest id' _ hid'
      obtain ⟨t, ht, k', hcarries', -⟩ := Injectable.signature_sent hadmissible hcarries hhost
      exact ⟨t, sent_subset_step hs ht, k', s, hcarries', ⟨id', hid'⟩, hcontent, hlen⟩

namespace KeyNetwork

/-- **`GetKey` returns authentic and secret keys.**  However the attacker interferes with any number
    of calls and processes, if no requester is handed a confusable KX value, a key that is not empty
    and that `GetKey` returns on a host whose `known_keys` are of honest hosts only is the multicast
    key of a process on a host it knows, which sent it signed together with the requester's public
    key.  If the `known_keys` of that host are of honest hosts only, too, the attacker has no byte of
    the key. -/
theorem getKey_authentic (D : Deployment) (sys : KeyNetwork) (h : sys.Reachable D (Unconfused D))
    (n : Nat) (hhonest : D.TrustsHonest (D.requesterHost n)) (key : RequestedKey)
    (hreturned : (sys.requesters n).phase = .returned key) (hkey : key.value ≠ []) :
    ∃ m, D.Lists (D.requesterHost n) (.honest (D.serverHost m)) ∧
      key.value = processKey (D.serverProcess m) ∧
      (∃ t ∈ sys.sent, t.sender = .server m ∧ ∃ k, t.datagram.Carries k
        ⟨.honest (D.serverHost m), publicKey (.requester n) ++ key.value⟩) ∧
      (D.TrustsHonest (D.serverHost m) → ∀ b ∈ key.value, ¬ Knows sys.sent (.byte b)) := by
  obtain ⟨net, hr, hR⟩ := refines h
  obtain ⟨hsuccess, hvalue⟩ := (hR.consistent n).returned key hreturned hkey
  rw [← hR.requesters n] at hsuccess hvalue
  obtain ⟨t, ht, k, s, hcarries, hlists, hcontent, hlen⟩ :=
    net.carried_of_success hr n hhonest hsuccess
  obtain ⟨m, hm, hmkey, hsent⟩ := Net.authentic_of_carries hr ht hcarries hlists hcontent hlen
  rw [hR.sent, ← hvalue] at hsent
  refine ⟨m, hm, hvalue.trans hmkey.symm, hsent, ?_⟩
  intro htrusts b hb hknown
  rw [hvalue, ← hmkey] at hb
  obtain ⟨i, rfl⟩ := mem_processKey hb
  rw [← hR.sent] at hknown
  exact Net.public_of_knows (Net.guarded hr).content hknown htrusts

/-- A KX value of 32 bytes is not confusable. -/
theorem unconfused_of_length {D : Deployment} {sys : KeyNetwork} {n : Nat} {recvrc time : Int}
    {d : Datagram} {out : Outcome}
    (h : ∀ theirKX, d.asShortString = some theirKX → theirKX.length = 32) :
    sys.Unconfused D (.turn n (.received recvrc d out time)) := by
  rintro - - - theirKX hread ⟨n', key, hkx, hlen, -⟩
  have hlong := congrArg List.length hkx
  rw [h theirKX hread, List.length_append, length_publicKey, hlen,
    crypto_kx_SESSIONKEYBYTES] at hlong
  omega

/-- The endpoint of requester 0. -/
def exampleEndpoint : UdpEndpoint := .v4 0 50000

/-- Requester 0 asks the listener of process 0. -/
theorem getKey_authentic_handshake :
    ∃ sys : KeyNetwork, (sys.requesters 0).phase = .returned ⟨processKey 0, 10, 11⟩ ∧
      ∀ b ∈ processKey 0, ¬ Knows sys.sent (.byte b) := by
  have h₀ : init.Reachable exampleDeployment (Unconfused exampleDeployment) := .init
  have h₁ := h₀.step (i := KeyEvent.getKey 0 10 true true) ⟨trivial, trivial⟩ rfl
  have h₂ := h₁.step (i := KeyEvent.received 0 exampleEndpoint
      ⟨33, ⟨some (publicKey (.requester 0)), none⟩, {}, 10, 10⟩)
    ⟨fun _ => ⟨injectable_publicKey _ _, rfl⟩, trivial⟩ rfl
  have h₃ := h₂.step (i := KeyEvent.turn 0
      (.received 33 ⟨some (publicKey (.server 0)), none⟩ {} 10))
    ⟨fun _ => injectable_publicKey _ _, unconfused_of_length fun theirKX hkx => by
      obtain rfl := Option.some.inj hkx
      exact length_publicKey _⟩ rfl
  have h₄ := h₃.step (i := KeyEvent.received 0 exampleEndpoint
      ⟨200, requesterPacket (publicKey (.server 0)), {}, 10, 10⟩)
    ⟨fun _ => ⟨injectable_of_sent (t := ⟨.requester 0, _⟩) 2 rfl rfl, rfl⟩, trivial⟩ rfl
  have h₅ := h₄.step (i := KeyEvent.turn 0 (.received 200 serverPacket {} 11))
    ⟨fun _ => injectable_of_sent (t := ⟨.server 0, _⟩) 3 rfl rfl, unconfused_of_length (by
      simp [serverPacket, idAndSigDatagram])⟩ rfl
  obtain ⟨m, -, -, -, hsecret⟩ := getKey_authentic exampleDeployment _ h₅ 0
    (exampleDeployment_trustsHonest 0) ⟨processKey 0, 10, 11⟩ rfl (by decide)
  exact ⟨_, by rfl, hsecret (exampleDeployment_trustsHonest 9)⟩

end KeyNetwork

end Mclog
