import Mclog.KeyRequestListener

/-!
# What the key request listener does with a datagram

The two branches do the same except for an error of `recvfrom`, which the IPv4 branch takes for a
datagram (`branches_agree_iff`).

Sessions expire at the end of a pass only.  So a session may be long stale when the next datagram of
its endpoint comes, and takes it: what is needed is that a pass has ended in between, more than 5
seconds after the session's last change (`fresh_iff`).
-/

namespace Mclog

open General

namespace KeyRequestListener

/-! ### The two branches -/

/-- The same listener for other addresses. -/
def rename (σ : UdpEndpoint ≃ UdpEndpoint) (l : KeyRequestListener) : KeyRequestListener :=
  { l with
    clients := l.clients ∘ σ.symm
    clientsDone := l.clientsDone.map fun c => (σ c.1, c.2) }

/-- What a branch does, for other addresses. -/
def renameResult (σ : UdpEndpoint ≃ UdpEndpoint) :
    Except ListenerStop (KeyRequestListener × List (UdpEndpoint × Datagram)) →
      Except ListenerStop (KeyRequestListener × List (UdpEndpoint × Datagram)) :=
  Except.map fun p => (p.1.rename σ, p.2.map fun reply => (σ reply.1, reply.2))

section

variable (D : Deployment) (σ : UdpEndpoint ≃ UdpEndpoint) (l : KeyRequestListener)
  (src : UdpEndpoint) (r : Received)

theorem clientFor_rename : (l.rename σ).clientFor (σ src) r = l.clientFor src r := by
  show (l.clients (σ.symm (σ src))).getD _ = _
  rw [σ.symm_apply_apply]
  rfl

theorem update_comp_symm (clients : UdpEndpoint → Option ClientSession)
    (client : Option ClientSession) :
    Function.update (clients ∘ σ.symm) (σ src) client =
      Function.update clients src client ∘ σ.symm := by
  funext e
  by_cases h : e = σ src
  · subst h
    simp
  · have h' : σ.symm e ≠ src := by
      rintro rfl
      exact h (σ.apply_symm_apply e).symm
    rw [Function.comp_apply, Function.update_of_ne h, Function.update_of_ne h']
    rfl

/-- The address plays no part. -/
theorem handle_rename :
    (l.rename σ).handle D (σ src) r = renameResult σ (l.handle D src r) := by
  unfold handle
  rw [clientFor_rename]
  cases (l.clientFor src r).processPacket D r with
  | none => rfl
  | some p =>
    obtain ⟨rc, client, sent⟩ := p
    dsimp only
    by_cases hsuccess : (rc && client.success) = true
    · rw [if_pos hsuccess, if_pos hsuccess]
      simp only [renameResult, Except.map, rename, update_comp_symm, List.map_map, List.map_append]
      rfl
    · rw [if_neg hsuccess, if_neg hsuccess]
      simp only [renameResult, Except.map, rename, update_comp_symm, List.map_map]
      rfl

theorem handle_ne_thrown : l.handle D src r ≠ .error .thrown := by
  unfold handle
  cases (l.clientFor src r).processPacket D r with
  | none =>
    intro h
    cases h
  | some p =>
    obtain ⟨rc, client, sent⟩ := p
    dsimp only
    split_ifs <;> · intro h; cases h

/-- **When the IPv4 branch and the IPv6 branch are the same handler**, up to the addresses, and do
    not throw: `recvfrom` returns no error. -/
theorem branches_agree_iff :
    ((l.rename σ).ipv6Branch D (σ src) r = renameResult σ (l.ipv4Branch D src r) ∧
        l.ipv4Branch D src r ≠ .error .thrown ∧
        (l.rename σ).ipv6Branch D (σ src) r ≠ .error .thrown) ↔
      0 ≤ r.recvrc := by
  unfold ipv4Branch ipv6Branch
  rcases lt_trichotomy r.recvrc 0 with hneg | hzero | hpos
  · refine iff_of_false ?_ (by omega)
    rintro ⟨-, hthrown, -⟩
    rw [if_pos hneg.ne, if_pos hneg] at hthrown
    exact hthrown rfl
  · refine iff_of_true ?_ hzero.ge
    rw [if_neg (by omega), if_neg (by omega)]
    refine ⟨rfl, ?_, ?_⟩ <;> · intro h; cases h
  · refine iff_of_true ?_ hpos.le
    rw [if_pos hpos, if_neg (by omega), if_pos hpos.ne', if_neg (by omega)]
    exact ⟨handle_rename D σ l src r, handle_ne_thrown D l src r,
      handle_ne_thrown D (l.rename σ) (σ src) r⟩

end

/-- A deployment without hosts. -/
def noDeployment : Deployment where
  requesterHost _ := 0
  serverProcess _ := 0
  processHost _ := 0
  id _ := []
  knownKeys _ _ := none
  oddSharedKey _ _ := .other 0

/-- An error of `recvfrom`. -/
theorem recv_error_throws :
    ipv4Branch noDeployment {} (.v4 0 1024) ⟨-1, ⟨none, none⟩, {}, 0, 0⟩ = .error .thrown ∧
      ¬∀ (D : Deployment) (σ : UdpEndpoint ≃ UdpEndpoint) (l : KeyRequestListener)
        (src : UdpEndpoint) (r : Received),
        (l.rename σ).ipv6Branch D (σ src) r = renameResult σ (l.ipv4Branch D src r) ∧
          l.ipv4Branch D src r ≠ .error .thrown ∧
          (l.rename σ).ipv6Branch D (σ src) r ≠ .error .thrown := by
  refine ⟨rfl, fun h => ?_⟩
  obtain ⟨-, hthrown, -⟩ :=
    h noDeployment (.refl _) {} (.v4 0 1024) ⟨-1, ⟨none, none⟩, {}, 0, 0⟩
  exact hthrown rfl

/-! ### Stale sessions -/

/-- A session that changed more than 5 seconds ago. -/
def Stale (st : ClientSession) (now : Int) : Prop := st.lastStateChangeTime + 5 < now

/-- If no session is stored for the endpoint, or a stale one, then the datagram is processed by a
    new one, in its initial state. -/
def Fresh (l : KeyRequestListener) (src : UdpEndpoint) (r : Received) : Prop :=
  (∀ st, l.clients src = some st → Stale st r.time) → l.clientFor src r = l.newClient r

/-- A stale session takes the datagram. -/
theorem fresh_iff_of_stored {l : KeyRequestListener} {src : UdpEndpoint} {r : Received} :
    l.Fresh src r ↔ ∀ st, l.clients src = some st → ¬Stale st r.time := by
  unfold Fresh clientFor
  cases hst : l.clients src with
  | none => simp
  | some st =>
    constructor
    · intro hfresh st' heq hstale
      obtain rfl := Option.some.inj heq
      have hnew : st = l.newClient r := hfresh fun st' heq => Option.some.inj heq ▸ hstale
      rw [hnew] at hstale
      unfold Stale newClient at hstale
      dsimp only at hstale
      omega
    · intro hnot hstale
      exact absurd (hstale st rfl) (hnot st rfl)

/-- What is noted of an endpoint when a datagram of it has been handled: the time of the last change
    of the session that is stored then; and after that the times at which passes end. -/
structure Noted where
  changed : Int
  ended : List Int := []

/-- The endpoints that are noted.  The listener does not know of them: what is noted stays when
    `ClearExpired` drops the session. -/
abbrev Notes := UdpEndpoint → Option Noted

/-- After a datagram of the endpoint has been handled, which leaves the listener `l`. -/
def Notes.hear (notes : Notes) (l : KeyRequestListener) (src : UdpEndpoint) (r : Received) : Notes :=
  if 0 < r.recvrc then
    Function.update notes src ((l.clients src).map fun st => ⟨st.lastStateChangeTime, []⟩)
  else
    notes

/-- After the end of a pass. -/
def Notes.passEnds (notes : Notes) (now : Int) : Notes := fun src =>
  (notes src).map fun n => { n with ended := n.ended ++ [now] }

/-- If a datagram of the endpoint comes more than 5 seconds after the last change of the session that
    the endpoint's previous datagram left, a pass has ended in between, and more than 5 seconds after
    that change, too. -/
def PassEnded (notes : Notes) (src : UdpEndpoint) (r : Received) : Prop :=
  ∀ n, notes src = some n → n.changed + 5 < r.time → ∃ t ∈ n.ended, n.changed + 5 < t

/-- The session that an endpoint's last datagram left is stored until a pass ends that finds it
    expired. -/
def Tracks (noted : Option Noted) : Option ClientSession → Prop
  | some st => ∃ n, noted = some n ∧ n.changed = st.lastStateChangeTime ∧ ∀ t ∈ n.ended, ¬Stale st t
  | none => ∀ n, noted = some n → ∃ t ∈ n.ended, n.changed + 5 < t

theorem tracks_clearExpired {noted : Option Noted} {stored : Option ClientSession}
    (h : Tracks noted stored) (now : Int) :
    Tracks (noted.map fun n => { n with ended := n.ended ++ [now] })
      (stored.filter fun st => !expired now st) := by
  cases stored with
  | none =>
    intro n hn
    obtain ⟨n', hn', rfl⟩ := Option.map_eq_some_iff.mp hn
    obtain ⟨t, ht, hlate⟩ := h n' hn'
    exact ⟨t, List.mem_append_left _ ht, hlate⟩
  | some st =>
    obtain ⟨n, rfl, hchanged, hended⟩ := h
    by_cases hexpired : st.lastStateChangeTime < now - 5
    · -- This pass drops the session.
      rw [Option.filter_some, if_neg (by simp [expired, hexpired])]
      intro n' hn'
      obtain rfl := Option.some.inj hn'
      refine ⟨now, List.mem_append_right _ (List.mem_singleton_self now), ?_⟩
      show n.changed + 5 < now
      omega
    · rw [Option.filter_some, if_pos (by simpa [expired] using hexpired)]
      refine ⟨_, rfl, hchanged, fun t ht => ?_⟩
      rcases List.mem_append.mp ht with ht | ht
      · exact hended t ht
      · rw [List.mem_singleton.mp ht]
        unfold Stale
        omega

/-- What is noted decides whether a datagram finds a fresh session. -/
theorem fresh_iff_passEnded {l : KeyRequestListener} {notes : Notes} {src : UdpEndpoint}
    (h : Tracks (notes src) (l.clients src)) {r : Received} :
    l.Fresh src r ↔ PassEnded notes src r := by
  rw [fresh_iff_of_stored]
  cases hst : l.clients src with
  | none =>
    rw [hst] at h
    exact iff_of_true (by simp) fun n hn _ => h n hn
  | some st =>
    rw [hst] at h
    obtain ⟨n, hn, hchanged, hended⟩ := h
    constructor
    · intro hfresh n' hn' hlate
      obtain rfl := Option.some.inj (hn.symm.trans hn')
      refine absurd ?_ (hfresh st rfl)
      unfold Stale
      omega
    · intro hpass st' hst' hstale
      obtain rfl := Option.some.inj hst'
      unfold Stale at hstale
      obtain ⟨t, ht, hlate⟩ := hpass n hn (by omega)
      apply hended t ht
      unfold Stale
      omega

section

variable (D : Deployment)

theorem clients_handle {l l' : KeyRequestListener} {src : UdpEndpoint} {r : Received}
    {replies : List (UdpEndpoint × Datagram)} (h : l.handle D src r = .ok (l', replies))
    {e : UdpEndpoint} (he : e ≠ src) : l'.clients e = l.clients e := by
  unfold handle at h
  cases hst : (l.clientFor src r).processPacket D r with
  | none =>
    rw [hst] at h
    cases h
  | some p =>
    rw [hst] at h
    dsimp only at h
    split_ifs at h
    · obtain ⟨rfl, -⟩ := Prod.mk.inj (Except.ok.inj h)
      exact Function.update_of_ne he _ _
    · obtain ⟨rfl, -⟩ := Prod.mk.inj (Except.ok.inj h)
      exact Function.update_of_ne he _ _

/-- The IPv4 part of a pass leaves the sessions of IPv6 clients alone. -/
theorem clients_passIpv4 {l l' : KeyRequestListener} {p : Pass}
    {replies : List (UdpEndpoint × Datagram)} (h : l.passIpv4 D p = .ok (l', replies))
    (addr : Ipv6Address) (port : UInt16) : l'.clients (.v6 addr port) = l.clients (.v6 addr port) := by
  unfold passIpv4 at h
  cases hv4 : p.v4 with
  | none =>
    rw [hv4] at h
    obtain ⟨rfl, -⟩ := Prod.mk.inj (Except.ok.inj h)
    rfl
  | some q =>
    rw [hv4] at h
    dsimp only at h
    unfold ipv4Branch at h
    split_ifs at h
    · exact clients_handle D h (by simp)
    · obtain ⟨rfl, -⟩ := Prod.mk.inj (Except.ok.inj h)
      rfl

/-- Every datagram of a pass whose endpoint has no session, or a stale one, is processed by a new
    session. -/
def FreshPass (l : KeyRequestListener) (p : Pass) : Prop :=
  (∀ src r, p.v4 = some (src, r) → 0 < r.recvrc → l.Fresh (.v4 src.1 src.2) r) ∧
    ∀ l' replies, l.passIpv4 D p = .ok (l', replies) →
      ∀ src r, p.v6 = some (src, r) → 0 < r.recvrc → l'.Fresh (.v6 src.1 src.2) r

/-- For every datagram of a pass that comes more than 5 seconds after the last change of the session
    that its endpoint's previous datagram left, a pass has ended in between, and more than 5 seconds
    after that change. -/
def EndedBefore (s : KeyRequestListener × Notes) (p : Pass) : Prop :=
  (∀ src r, p.v4 = some (src, r) → 0 < r.recvrc → PassEnded s.2 (.v4 src.1 src.2) r) ∧
    ∀ l' replies, s.1.passIpv4 D p = .ok (l', replies) →
      ∀ src r, p.v6 = some (src, r) → 0 < r.recvrc → PassEnded s.2 (.v6 src.1 src.2) r

/-- The machine, with what is noted of the endpoints. -/
def watched : Machine (KeyRequestListener × Notes) Pass (UdpEndpoint × Datagram) := fun s p => do
  let (l, replies) ← (s.1.passIpv4 D p).toOption
  let notes := p.v4.elim s.2 fun i => s.2.hear l (.v4 i.1.1 i.1.2) i.2
  let (l, replies') ← (l.passIpv6 D p).toOption
  let notes := p.v6.elim notes fun i => notes.hear l (.v6 i.1.1 i.1.2) i.2
  pure ((l.clearExpired p.clearTime, notes.passEnds p.clearTime), replies ++ replies')

/-- Watching changes nothing. -/
theorem machine_eq_watched (s : KeyRequestListener × Notes) (p : Pass) :
    machine D s.1 p = (watched D s p).map fun q => (q.1.1, q.2) := by
  unfold machine watched pass
  cases s.1.passIpv4 D p with
  | error e => rfl
  | ok a =>
    show (Except.toOption (do
      let b ← a.1.passIpv6 D p
      pure (b.1.clearExpired p.clearTime, a.2 ++ b.2))) = _
    cases hv6 : a.1.passIpv6 D p with
    | error e => simp [bind, Except.bind, Except.toOption, hv6]
    | ok b => simp [bind, Except.bind, Except.toOption, pure, Except.pure, hv6]

theorem meets_watched (C : KeyRequestListener → Pass → Prop) (l : KeyRequestListener)
    (notes : Notes) (passes : List Pass) :
    (watched D).Meets (fun s p => C s.1 p) (l, notes) passes ↔ (machine D).Meets C l passes := by
  induction passes generalizing l notes with
  | nil => exact Iff.rfl
  | cons p passes ih =>
    refine and_congr Iff.rfl ?_
    have heq := machine_eq_watched D (l, notes) p
    dsimp only at heq
    rw [heq]
    cases watched D (l, notes) p with
    | none => exact Iff.rfl
    | some q => exact ih q.1.1 q.1.2

/-- What is noted is right of every endpoint. -/
def Tracked (s : KeyRequestListener × Notes) : Prop := ∀ src, Tracks (s.2 src) (s.1.clients src)

/-- A datagram that is handled, or nothing. -/
theorem Tracked.hear {l l' : KeyRequestListener} {notes : Notes} (h : Tracked (l, notes))
    {src : UdpEndpoint} {r : Received} {replies : List (UdpEndpoint × Datagram)}
    (hdone : (0 < r.recvrc ∧ l.handle D src r = .ok (l', replies)) ∨ (¬0 < r.recvrc ∧ l' = l)) :
    Tracked (l', notes.hear l' src r) := by
  rcases hdone with ⟨hpos, hhandle⟩ | ⟨hnot, rfl⟩
  · intro e
    unfold Notes.hear
    rw [if_pos hpos]
    dsimp only
    by_cases he : e = src
    · subst he
      rw [Function.update_self]
      cases l'.clients e with
      | none =>
        intro n hn
        cases hn
      | some st => exact ⟨_, rfl, rfl, List.forall_mem_nil _⟩
    · rw [Function.update_of_ne he, clients_handle D hhandle he]
      exact h e
  · unfold Notes.hear
    rw [if_neg hnot]
    exact h

theorem Tracked.passIpv4 {l l' : KeyRequestListener} {notes : Notes} (h : Tracked (l, notes))
    {p : Pass} {replies : List (UdpEndpoint × Datagram)}
    (hpass : l.passIpv4 D p = .ok (l', replies)) :
    Tracked (l', p.v4.elim notes fun i => notes.hear l' (.v4 i.1.1 i.1.2) i.2) := by
  unfold KeyRequestListener.passIpv4 at hpass
  cases hv4 : p.v4 with
  | none =>
    rw [hv4] at hpass
    obtain ⟨rfl, -⟩ := Prod.mk.inj (Except.ok.inj hpass)
    exact h
  | some i =>
    rw [hv4] at hpass
    dsimp only at hpass
    apply h.hear D
    unfold ipv4Branch at hpass
    split_ifs at hpass with hzero hneg
    · exact Or.inl ⟨by omega, hpass⟩
    · obtain ⟨rfl, -⟩ := Prod.mk.inj (Except.ok.inj hpass)
      exact Or.inr ⟨by omega, rfl⟩

theorem Tracked.passIpv6 {l l' : KeyRequestListener} {notes : Notes} (h : Tracked (l, notes))
    {p : Pass} {replies : List (UdpEndpoint × Datagram)}
    (hpass : l.passIpv6 D p = .ok (l', replies)) :
    Tracked (l', p.v6.elim notes fun i => notes.hear l' (.v6 i.1.1 i.1.2) i.2) := by
  unfold KeyRequestListener.passIpv6 at hpass
  cases hv6 : p.v6 with
  | none =>
    rw [hv6] at hpass
    obtain ⟨rfl, -⟩ := Prod.mk.inj (Except.ok.inj hpass)
    exact h
  | some i =>
    rw [hv6] at hpass
    dsimp only at hpass
    apply h.hear D
    unfold ipv6Branch at hpass
    split_ifs at hpass with hpos hneg
    · exact Or.inl ⟨hpos, hpass⟩
    · obtain ⟨rfl, -⟩ := Prod.mk.inj (Except.ok.inj hpass)
      exact Or.inr ⟨hpos, rfl⟩

/-- **One pass.** -/
theorem Tracked.step {s s' : KeyRequestListener × Notes} (h : Tracked s) {p : Pass}
    {replies : List (UdpEndpoint × Datagram)} (hstep : watched D s p = some (s', replies)) :
    Tracked s' := by
  unfold watched at hstep
  cases hv4 : s.1.passIpv4 D p with
  | error e =>
    rw [hv4] at hstep
    cases hstep
  | ok a =>
    rw [hv4] at hstep
    have hfirst := h.passIpv4 D hv4
    cases hv6 : a.1.passIpv6 D p with
    | error e => simp [Except.toOption, hv6] at hstep
    | ok b =>
      have hsecond := hfirst.passIpv6 D hv6
      simp only [Except.toOption, hv6, bind, Option.bind, pure, Option.some.injEq,
        Prod.mk.injEq] at hstep
      rw [← hstep.1]
      exact fun src => tracks_clearExpired (hsecond src) p.clearTime

/-- **When stale sessions do not take new requests**, in every run: whenever a datagram comes more
    than 5 seconds after the last change of the session that its endpoint's previous datagram left, a
    pass has ended in between, and more than 5 seconds after that change. -/
theorem fresh_iff (passes : List Pass) :
    (machine D).Meets (FreshPass D) {} passes ↔
      (watched D).Meets (EndedBefore D) ({}, fun _ => none) passes := by
  rw [← meets_watched D (FreshPass D) {} fun _ => none]
  refine (watched D).meets_iff_of_invariant (fun s p s' out h hstep => Tracked.step D h hstep) ?_ ?_
    passes
  · intro s p hs
    refine and_congr ?_ ?_
    · exact forall_congr' fun src => forall_congr' fun r => imp_congr_right fun _ =>
        imp_congr_right fun _ => fresh_iff_passEnded (hs _)
    · refine forall_congr' fun l' => forall_congr' fun replies => imp_congr_right fun hv4 =>
        forall_congr' fun src => forall_congr' fun r => imp_congr_right fun _ =>
          imp_congr_right fun _ => ?_
      -- The IPv4 part leaves the session of an IPv6 client alone.
      apply fresh_iff_passEnded
      rw [clients_passIpv4 D hv4]
      exact hs _
  · intro src n hn
    cases hn

end

/-- A client that sends its public key, and the same 100 seconds later. -/
def helloPass (time : Int) : Pass where
  v4 := some ((0, 1024), ⟨33, ⟨some (publicKey (.requester 0)), none⟩, {}, time, time⟩)
  clearTime := time

/-- **A session of 100 seconds ago takes the request.** -/
theorem stale_session_captures :
    ¬∀ (D : Deployment) (passes : List Pass), (machine D).Meets (FreshPass D) {} passes := by
  intro h
  obtain ⟨-, hrest⟩ := h noDeployment [helloPass 0, helloPass 100]
  have hchanged : (machine noDeployment {} (helloPass 0)).map (fun q =>
      (q.1.clients (.v4 0 1024)).map ClientSession.lastStateChangeTime) = some (some 0) := by decide
  cases hfirst : machine noDeployment {} (helloPass 0) with
  | none =>
    rw [hfirst] at hchanged
    cases hchanged
  | some q =>
    rw [hfirst] at hrest hchanged
    obtain ⟨st, hst, hlast⟩ := Option.map_eq_some_iff.mp (Option.some.inj hchanged)
    have hfresh := hrest.1.1 (0, 1024) _ rfl (by decide)
    have hnot := fresh_iff_of_stored.mp hfresh st hst
    apply hnot
    unfold Stale
    rw [hlast]
    decide

end KeyRequestListener

end Mclog
