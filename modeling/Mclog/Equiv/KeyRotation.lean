import Mclog.Equiv.DeliveryOrder

/-!
# A new key

A sender takes a new key, and a source that still has the old one gets packets under the new key.
The source discards its key with the first of them, buffers them all and asks for the key; when a
packet arrives after the new key has, the backlog is drained.  All the packets come out but the
first (`rotation_loses_first`): decryption with the old key has wiped it in the receive buffer
before it is buffered.
-/

namespace Mclog

open General

/-- The readings of the clock during a call, in their order. -/
def Arrival.readings (a : Arrival) : List Int :=
  [a.receiveTime, a.bufferTime, a.expireTime, a.clearTime]

/-- The backlog entry of a datagram that is buffered as it came. -/
def Arrival.entry (a : Arrival) : BacklogEntry := ⟨a.bufferTime, a.datagram⟩

namespace MulticastSource

/-- The keys that a call reads: `ProcessPacket` itself, and `ProcessBacklog` after it. -/
def keysRead (s : MulticastSource) (a : Arrival) : Str × Str :=
  ((s.arrive a).key.value, ((s.arrive a).queryRuns a.beforeBacklog).key.value)

section

variable (io : StreamIO) (aead : Aead) {k₁ k₂ : Str}

/-- **The first packet under a new key** is wiped, and waits alone in the backlog. -/
theorem processPacket_of_newKey {s : MulticastSource} (hlong : s.LongBacklog) {p : Arrival}
    (hk₁ : k₁ ≠ []) (hread : s.keysRead p = (k₁, k₁))
    (hplong : k_minPacketLen < p.datagram.length)
    (hrejected : ¬ MessagePacket.Accepted aead k₁ p.datagram)
    (hfresh : p.clearTime < p.bufferTime + seconds 5) :
    ∃ s' out, machine io aead s p = some (s', out) ∧
      s'.backlog.entries = [⟨p.bufferTime, wiped p.datagram⟩] := by
  obtain ⟨hfirst, hsecond⟩ := Prod.mk.inj hread
  have hcall := processPacket_of_key io aead s p (by rw [hfirst]; exact hk₁)
  have hbacklog : ∀ e ∈ ((s.arrive p).queryRuns p.beforeBacklog).backlog.entries,
      k_minPacketLen < e.data.length := by
    rw [backlog_queryRuns, backlog_arrive]
    exact hlong
  rcases processBacklog_of_long io aead _ hbacklog with ⟨hgone, -⟩ | ⟨-, hdrain⟩
  · exact absurd (hsecond.symm.trans hgone) hk₁
  · obtain ⟨hopen, -⟩ := openPacket_of_not_accepted io aead hplong hrejected
    rw [hdrain, Option.bind_some, hfirst, hopen, Option.map_some, if_neg (by norm_num)] at hcall
    refine ⟨_, _, machine_of_processPacket io aead hcall, ?_⟩
    have hone : ∀ e ∈ (Backlog.empty.pushBack ⟨p.bufferTime, wiped p.datagram⟩).entries,
        p.clearTime < e.receiveTime + seconds 5 := by
      intro e he
      obtain rfl : e = ⟨p.bufferTime, wiped p.datagram⟩ := by
        simpa [Backlog.pushBack, Backlog.empty, backlogMaxLength] using he
      exact hfresh
    simp only [clearOldBacklog, backlog_discardKey, clearOld_of_fresh _ _ hone]
    rfl

/-- A call that finds no key puts its datagram behind a fresh backlog. -/
theorem processPacket_of_waiting {s : MulticastSource} {a : Arrival}
    (hread : (s.keysRead a).1 = []) (hroom : s.backlog.entries.length < backlogMaxLength)
    (hold : ∀ e ∈ s.backlog.entries, a.clearTime < e.receiveTime + seconds 5)
    (hfresh : a.clearTime < a.bufferTime + seconds 5) :
    ∃ s', machine io aead s a = some (s', []) ∧
      s'.backlog.entries = s.backlog.entries ++ [a.entry] := by
  refine ⟨_, machine_of_processPacket io aead (processPacket_of_noKey io aead s a hread), ?_⟩
  have hentries := entries_bufferAndQuery (s := s.arrive a) (a := a) (by simpa using hroom)
  rw [backlog_arrive] at hentries
  have hall : ∀ e ∈ ((s.arrive a).bufferAndQuery a).backlog.entries,
      a.clearTime < e.receiveTime + seconds 5 := by
    intro e he
    rw [hentries] at he
    rcases List.mem_append.mp he with he | he
    · exact hold e he
    · rw [List.mem_singleton.mp he]
      exact hfresh
  simp only [clearOldBacklog, clearOld_of_fresh _ _ hall]
  exact hentries

/-- **Packets that find no key** wait in the order of their arrival, if there is room for them and
    they are within 5 seconds. -/
theorem run_of_waiting {s : MulticastSource} {start : Int} {ps : List Arrival}
    (hread : (machine io aead).Meets (fun s a => (s.keysRead a).1 = []) s ps)
    (hroom : s.backlog.entries.length + ps.length ≤ backlogMaxLength)
    (hold : ∀ e ∈ s.backlog.entries, start ≤ e.receiveTime)
    (htimes : ∀ a ∈ ps, start ≤ a.bufferTime ∧ a.clearTime < start + seconds 5) :
    ∃ s', (machine io aead).run s ps = some (s', []) ∧
      s'.backlog.entries = s.backlog.entries ++ ps.map Arrival.entry := by
  induction ps generalizing s with
  | nil => exact ⟨s, rfl, by simp⟩
  | cons a ps ih =>
    obtain ⟨hfirst, hrest⟩ := hread
    obtain ⟨hbuffer, hclear⟩ := htimes a (by simp)
    rw [List.length_cons] at hroom
    obtain ⟨s₁, hstep, hentries⟩ := processPacket_of_waiting io aead hfirst (by omega)
      (fun e he => by have := hold e he; omega) (by omega)
    rw [hstep] at hrest
    have hold₁ : ∀ e ∈ s₁.backlog.entries, start ≤ e.receiveTime := by
      intro e he
      rw [hentries] at he
      rcases List.mem_append.mp he with he | he
      · exact hold e he
      · rw [List.mem_singleton.mp he]
        exact hbuffer
    obtain ⟨s', hrun, hentries'⟩ := ih hrest
      (by rw [hentries, List.length_append, List.length_singleton]; omega) hold₁
      fun b hb => htimes b (by simp [hb])
    refine ⟨s', ?_, ?_⟩
    · rw [Machine.run_cons_of_some _ hstep, hrun]
      rfl
    · rw [hentries', hentries, List.map_cons, List.append_assoc, List.singleton_append]

/-- **A packet that finds the new key** delivers what waits, and then its own messages. -/
theorem processPacket_of_drained {s : MulticastSource} (hlong : s.LongBacklog) {q : Arrival}
    (hk₂ : k₂ ≠ []) (hread : s.keysRead q = (k₂, k₂))
    (haccepted : MessagePacket.Accepted aead k₂ q.datagram) :
    ∃ s', machine io aead s q = some (s',
      (s.backlog.entries.flatMap fun e => messagesUnder io aead k₂ e.data) ++
        messagesUnder io aead k₂ q.datagram) := by
  obtain ⟨hfirst, hsecond⟩ := Prod.mk.inj hread
  have hcall := processPacket_of_key io aead s q (by rw [hfirst]; exact hk₂)
  have hbacklog : ∀ e ∈ ((s.arrive q).queryRuns q.beforeBacklog).backlog.entries,
      k_minPacketLen < e.data.length := by
    rw [backlog_queryRuns, backlog_arrive]
    exact hlong
  rcases processBacklog_of_long io aead _ hbacklog with ⟨hgone, -⟩ | ⟨-, hdrain⟩
  · exact absurd (hsecond.symm.trans hgone) hk₂
  · obtain ⟨rc, left, hopen, hrc⟩ := openPacket_of_accepted io aead haccepted
    rw [hsecond, backlog_queryRuns, backlog_arrive] at hdrain
    rw [hdrain, Option.bind_some, hfirst, hopen, Option.map_some, if_pos hrc] at hcall
    exact ⟨_, machine_of_processPacket io aead hcall⟩

/-- **Key rotation loses the first packet.**  A source holds `k₁` when the packets `p` and `ps`, at
    most 100 of them, arrive under `k₂`; the packets `ps` find no key, and a packet `q` that arrives
    less than 5 seconds after `p` finds `k₂`.  Then `q` delivers the messages of `ps` and its own:
    those of all the packets exactly if `p` has none. -/
theorem rotation_loses_first (k₁ k₂ : Str) (s : MulticastSource) (hlong : s.LongBacklog)
    (p : Arrival) (ps : List Arrival) (q : Arrival) (hk₁ : k₁ ≠ []) (hk₂ : k₂ ≠ [])
    (hn : (p :: ps).length ≤ backlogMaxLength)
    (haccepted : ∀ a ∈ p :: ps ++ [q], MessagePacket.Accepted aead k₂ a.datagram)
    (hrejected : ¬ MessagePacket.Accepted aead k₁ p.datagram)
    (hwiped : ¬ MessagePacket.Accepted aead k₂ (wiped p.datagram))
    (hclock : ((p :: ps ++ [q]).flatMap Arrival.readings).Pairwise (· ≤ ·))
    (hfresh : q.receiveTime < p.receiveTime + seconds 5)
    (hp : s.keysRead p = (k₁, k₁))
    (hps : ∀ s₁ out, machine io aead s p = some (s₁, out) →
      (machine io aead).Meets (fun s a => (s.keysRead a).1 = []) s₁ ps)
    (hq : ∀ s₂ out, (machine io aead).run s (p :: ps) = some (s₂, out) →
      s₂.keysRead q = (k₂, k₂)) :
    ∃ s₂ out s' msgs, (machine io aead).run s (p :: ps) = some (s₂, out) ∧
      machine io aead s₂ q = some (s', msgs) ∧
      msgs = (ps ++ [q]).flatMap (fun a => messagesUnder io aead k₂ a.datagram) ∧
      (msgs = (p :: ps ++ [q]).flatMap (fun a => messagesUnder io aead k₂ a.datagram) ↔
        messagesUnder io aead k₂ p.datagram = []) := by
  -- What is accepted is long enough for a packet.
  have hpackets : ∀ a ∈ p :: ps ++ [q], k_minPacketLen < a.datagram.length := by
    intro a ha
    obtain ⟨pkt, hpkt, -⟩ := haccepted a ha
    exact (MessagePacket.ofBuf_isSome_iff _).mp (Option.isSome_of_eq_some hpkt)
  -- The clock: nothing is buffered before `p` arrives, and nothing is cleared 5 seconds later.
  have htimes : ∀ a ∈ p :: ps, p.receiveTime ≤ a.bufferTime ∧
      a.clearTime < p.receiveTime + seconds 5 := by
    intro a ha
    rw [List.flatMap_append, List.pairwise_append] at hclock
    obtain ⟨hbefore, -, hacross⟩ := hclock
    have hclear : a.clearTime ≤ q.receiveTime :=
      hacross a.clearTime (List.mem_flatMap.mpr ⟨a, ha, by simp [Arrival.readings]⟩) q.receiveTime
        (by simp [Arrival.readings])
    refine ⟨?_, by omega⟩
    rw [List.flatMap_cons, List.pairwise_append] at hbefore
    obtain ⟨hown, -, hlater⟩ := hbefore
    rcases List.mem_cons.mp ha with rfl | ha
    · simp only [Arrival.readings, List.pairwise_cons] at hown
      exact hown.1 _ (by simp)
    · exact hlater p.receiveTime (by simp [Arrival.readings]) a.bufferTime
        (List.mem_flatMap.mpr ⟨a, ha, by simp [Arrival.readings]⟩)
  obtain ⟨hpbuffer, hpclear⟩ := htimes p (by simp)
  have hplong := hpackets p (by simp)
  obtain ⟨s₁, out, hstep, hentries⟩ :=
    processPacket_of_newKey io aead hlong hk₁ hp hplong hrejected (by omega)
  obtain ⟨s₂, hrun, hentries₂⟩ := run_of_waiting io aead (hps s₁ out hstep)
    (by rw [hentries]; simpa [Nat.add_comm] using hn) (by simpa [hentries] using hpbuffer)
    fun a ha => htimes a (by simp [ha])
  rw [hentries, List.singleton_append] at hentries₂
  have hwhole : (machine io aead).run s (p :: ps) = some (s₂, out ++ []) := by
    rw [Machine.run_cons_of_some _ hstep, hrun]
    rfl
  have hwlong : k_minPacketLen < (wiped p.datagram).length := by
    rw [length_wiped]
    exact hplong
  have hlong₂ : s₂.LongBacklog := by
    unfold LongBacklog
    rw [hentries₂]
    intro e he
    rcases List.mem_cons.mp he with rfl | he
    · exact hwlong
    · obtain ⟨a, ha, rfl⟩ := List.mem_map.mp he
      exact hpackets a (by simp [ha])
  obtain ⟨s', hlast⟩ := processPacket_of_drained io aead hlong₂ hk₂ (hq s₂ _ hwhole)
    (haccepted q (by simp))
  -- What is left of the first packet has no messages.
  have hnone := (openPacket_of_not_accepted io aead hwlong hwiped).2
  have hmsgs : (s₂.backlog.entries.flatMap fun e => messagesUnder io aead k₂ e.data) ++
      messagesUnder io aead k₂ q.datagram =
        (ps ++ [q]).flatMap fun a => messagesUnder io aead k₂ a.datagram := by
    rw [hentries₂, List.flatMap_cons, hnone, List.nil_append, List.flatMap_map, List.flatMap_append,
      List.flatMap_singleton]
    rfl
  refine ⟨s₂, _, s', _, hwhole, hlast, hmsgs, ?_⟩
  rw [hmsgs, List.cons_append, List.flatMap_cons]
  constructor
  · intro heq
    exact List.self_eq_append_left.mp heq
  · intro hnil
    rw [hnil, List.nil_append]

end

/-! ### A rotation -/

/-- The key, the sum of the plaintext before it, cut or padded to the length of a MAC. -/
def sumTag (key plain : Str) : Str := keyTag (plain.foldl (· + ·) 0 :: key)

theorem length_append_sumTag (key plain : Str) :
    (plain ++ sumTag key plain).length = plain.length + k_macLen := by
  rw [List.length_append, sumTag, length_keyTag]

/-- An `Aead` whose MAC has the key and the sum of the plaintext: it rejects packets under another
    key, and packets that have been wiped unless the sum was 0. -/
def sumAead : Aead where
  encrypt key _ plain := plain ++ sumTag key plain
  decrypt key _ cipher :=
    if k_macLen ≤ cipher.length ∧ cipher.drop (cipher.length - k_macLen) =
        sumTag key (cipher.take (cipher.length - k_macLen)) then
      some (cipher.take (cipher.length - k_macLen))
    else
      none
  length_encrypt key _ plain := length_append_sumTag key plain
  decrypt_encrypt key _ plain := by
    have hlen : (plain ++ sumTag key plain).length - k_macLen = plain.length := by
      rw [length_append_sumTag, Nat.add_sub_cancel]
    have hge : k_macLen ≤ (plain ++ sumTag key plain).length := by simp [sumTag, length_keyTag]
    rw [hlen, List.drop_left' rfl, List.take_left' rfl, if_pos ⟨hge, rfl⟩]
  length_decrypt key _ cipher plain h := by
    split_ifs at h with hcond
    rw [← Option.some.inj h, List.length_take, min_eq_left (Nat.sub_le _ _),
      Nat.sub_add_cancel hcond.1]

/-- The sender's keys. -/
def oldKey : Str := str "old"

def newKey : Str := str "new"

/-- The sender's datagram with a message, under the given key. -/
def rotationDatagram (key : Str) (n : UInt8) : Str :=
  MessagePacket.sealed sumAead key ⟨List.replicate k_nonceLen 0, length_zeroNonce⟩
    ((numberedMessage n).write prefixedStreams)

/-- The source gets the old key. -/
def oldArrivals : List Arrival :=
  [arrivalAt (rotationDatagram oldKey 1) (seconds 10) [],
   arrivalAt (rotationDatagram oldKey 2) (seconds 11) [.store { value := oldKey }, .setDone]]

/-- The source with the old key. -/
def withOldKey : MulticastSource := ⟨{ value := oldKey }, .empty, .done, seconds 11⟩

/-- Two packets under the new key, and one after the key has been found. -/
def newArrivals : List Arrival :=
  [arrivalAt (rotationDatagram newKey 3) (seconds 20) [],
   arrivalAt (rotationDatagram newKey 4) (seconds 21) []]

def foundArrival : Arrival :=
  arrivalAt (rotationDatagram newKey 5) (seconds 22) [.store { value := newKey }, .setDone]

theorem rotation_loses_first_two :
    ∃ s₂ out s' msgs,
      (machine prefixedStreams sumAead).run withOldKey newArrivals = some (s₂, out) ∧
      machine prefixedStreams sumAead s₂ foundArrival = some (s', msgs) ∧
      msgs = (newArrivals.tail ++ [foundArrival]).flatMap
        (fun a => messagesUnder prefixedStreams sumAead newKey a.datagram) ∧
      (msgs = (newArrivals ++ [foundArrival]).flatMap
          (fun a => messagesUnder prefixedStreams sumAead newKey a.datagram) ↔
        messagesUnder prefixedStreams sumAead newKey newArrivals[0].datagram = []) := by
  have hps : ((machine prefixedStreams sumAead) withOldKey newArrivals[0]).all (fun r =>
      (machine prefixedStreams sumAead).Meets (fun s a => (s.keysRead a).1 = []) r.1
        newArrivals.tail) = true := by decide
  have hq : ((machine prefixedStreams sumAead).run withOldKey newArrivals).all (fun r =>
      r.1.keysRead foundArrival = (newKey, newKey)) = true := by decide
  refine rotation_loses_first prefixedStreams sumAead oldKey newKey withOldKey ?_ newArrivals[0]
    newArrivals.tail foundArrival (by decide) (by decide) (by decide) (by decide) (by decide)
    (by decide) (by decide) (by decide) (by decide) ?_ ?_
  · intro e he
    simp [withOldKey, Backlog.empty] at he
  · intro s₁ out hstep
    rw [hstep] at hps
    exact of_decide_eq_true hps
  · intro s₂ out hrun
    have hwhole : newArrivals[0] :: newArrivals.tail = newArrivals := rfl
    rw [hwhole] at hrun
    rw [hrun] at hq
    exact of_decide_eq_true hq

/-- **The first packet under a new key is lost.**  Of the packets 3, 4 and 5 under the new key, the
    last delivers 4 and 5. -/
theorem first_packet_lost :
    ((machine prefixedStreams sumAead).run init oldArrivals).map
        (fun r => (r.1.key, r.1.backlog.entries, r.1.query, r.2)) =
      some (withOldKey.key, [], .done, [numberedMessage 1, numberedMessage 2]) ∧
    (∀ a ∈ newArrivals ++ [foundArrival],
      MessagePacket.Accepted sumAead newKey a.datagram ∧
        ¬ MessagePacket.Accepted sumAead oldKey a.datagram) ∧
    ((machine prefixedStreams sumAead).run init (oldArrivals ++ newArrivals)).map
        (fun r => (r.1.query, r.2)) =
      some (.asking, [numberedMessage 1, numberedMessage 2]) ∧
    ((machine prefixedStreams sumAead).run init
        (oldArrivals ++ newArrivals ++ [foundArrival])).map (·.2) =
      some ([1, 2, 4, 5].map numberedMessage) :=
  ⟨by decide, by decide, by decide, by decide⟩

end MulticastSource

end Mclog
