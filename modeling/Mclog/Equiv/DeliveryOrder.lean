import Mclog.Equiv.MulticastSource

/-!
# The order of delivery

What a multicast source delivers are the messages of some of its datagrams, in the order of arrival,
each datagram's in full and opened with a stored key (`delivers_in_order`), as long as no call
delivers its datagram past the backlog.  A call does when the query thread takes the key away between
the call's two reads of it: the backlog is left alone then, and the datagram opened with the key read
first (`datagram_overtakes`).
-/

namespace Mclog

open General

namespace MulticastSource

section

variable (io : StreamIO) (aead : Aead)

/-- The keys that the query thread may store during some calls; an empty answer is none. -/
def storedKeys (arrivals : List Arrival) : List Str :=
  ((arrivals.flatMap fun a => answers a.steps).map MulticastSourceKey.value).filter (· ≠ [])

/-- A datagram that one of the keys does not open is opened by none of them once it is wiped. -/
def StaysClosed (keys : List Str) (datagram : Str) : Prop :=
  ∀ k ∈ keys, ¬ MessagePacket.Accepted aead k datagram →
    ∀ k' ∈ keys, ¬ MessagePacket.Accepted aead k' (wiped datagram)

instance (keys : List Str) (datagram : Str) : Decidable (StaysClosed aead keys datagram) := by
  unfold StaysClosed
  infer_instance

/-- A call does not deliver its datagram past the backlog: when the key has gone since the call read
    it first, nothing is buffered, or the datagram has no message under that key. -/
def NoOvertaking (s : MulticastSource) (a : Arrival) : Prop :=
  (s.arrive a).key.value ≠ [] → ((s.arrive a).queryRuns a.beforeBacklog).key.value = [] →
    s.backlog.entries = [] ∨ messagesUnder io aead (s.arrive a).key.value a.datagram = []

instance (s : MulticastSource) (a : Arrival) : Decidable (s.NoOvertaking io aead a) := by
  unfold NoOvertaking
  infer_instance

/-! ### The backlog -/

/-- An entry is a datagram as it came or, if one of the keys does not open it, what decryption has
    left of it. -/
def BufferedAs (keys : List Str) (datagram : Str) (e : BacklogEntry) : Prop :=
  k_minPacketLen < datagram.length ∧ StaysClosed aead keys datagram ∧
    (e.data = datagram ∨
      e.data = wiped datagram ∧ ∃ k ∈ keys, ¬ MessagePacket.Accepted aead k datagram)

/-- The backlog holds some of the datagrams, in their order. -/
def Waits (keys datagrams : List Str) (b : Backlog) : Prop :=
  ∃ waiting, waiting.Sublist datagrams ∧ List.Forall₂ (BufferedAs aead keys) waiting b.entries

variable {aead} {keys datagrams : List Str} {b : Backlog}

theorem Waits.of_empty (h : b.entries = []) : Waits aead keys datagrams b :=
  ⟨[], List.nil_sublist _, by rw [h]; exact .nil⟩

/-- A buffered entry is long enough for a packet. -/
theorem Waits.long (h : Waits aead keys datagrams b) :
    ∀ e ∈ b.entries, k_minPacketLen < e.data.length := by
  obtain ⟨waiting, -, hbuffered⟩ := h
  generalize b.entries = entries at hbuffered ⊢
  induction hbuffered with
  | nil => simp
  | cons h _ ih =>
    obtain ⟨hlong, -, heq | ⟨heq, -⟩⟩ := h
    · simp only [List.forall_mem_cons, heq]
      exact ⟨hlong, ih⟩
    · simp only [List.forall_mem_cons, heq, length_wiped]
      exact ⟨hlong, ih⟩

/-- Buffering one more, unless the backlog is full. -/
theorem Waits.pushBack (h : Waits aead keys datagrams b) {datagram : Str} {e : BacklogEntry}
    (he : BufferedAs aead keys datagram e) :
    Waits aead keys (datagrams ++ [datagram]) (b.pushBack e) := by
  obtain ⟨waiting, hsub, hbuffered⟩ := h
  unfold Backlog.pushBack
  split_ifs with hroom
  · refine ⟨waiting ++ [datagram], hsub.append (List.Sublist.refl _), ?_⟩
    exact List.rel_append hbuffered (.cons he .nil)
  · exact ⟨waiting, hsub.trans (List.sublist_append_left _ _), hbuffered⟩

/-- Dropping old entries. -/
theorem Waits.clearOld (h : Waits aead keys datagrams b) (now : Int) :
    Waits aead keys datagrams (b.clearOld now) := by
  obtain ⟨waiting, hsub, hbuffered⟩ := h
  unfold Waits Backlog.clearOld
  dsimp only
  generalize b.entries = entries at hbuffered ⊢
  induction hbuffered with
  | nil => exact ⟨[], hsub, .nil⟩
  | @cons datagram e waiting entries he hrest ih =>
    rw [List.dropWhile_cons]
    split_ifs with hold
    · exact ih ((List.sublist_cons_self _ _).trans hsub)
    · exact ⟨_, hsub, .cons he hrest⟩

/-- **Draining the backlog** delivers the full messages of some of the datagrams, in order: what
    decryption has wiped gives none. -/
theorem Waits.drained (h : Waits aead keys datagrams b) (io : StreamIO) {k : Str} (hk : k ∈ keys) :
    ∃ delivered : List (Str × Str), (delivered.map Prod.fst).Sublist datagrams ∧
      (∀ d ∈ delivered, d.2 ∈ keys) ∧
      (b.entries.flatMap fun e => messagesUnder io aead k e.data) =
        delivered.flatMap fun d => messagesUnder io aead d.2 d.1 := by
  obtain ⟨waiting, hsub, hbuffered⟩ := h
  suffices hmain : ∃ delivered : List (Str × Str), (delivered.map Prod.fst).Sublist waiting ∧
      (∀ d ∈ delivered, d.2 ∈ keys) ∧
      (b.entries.flatMap fun e => messagesUnder io aead k e.data) =
        delivered.flatMap fun d => messagesUnder io aead d.2 d.1 by
    obtain ⟨delivered, hdelivered, hkeys, heq⟩ := hmain
    exact ⟨delivered, hdelivered.trans hsub, hkeys, heq⟩
  clear hsub
  generalize b.entries = entries at hbuffered ⊢
  induction hbuffered with
  | nil => exact ⟨[], List.nil_sublist _, List.forall_mem_nil _, rfl⟩
  | @cons datagram e waiting entries he _ ih =>
    obtain ⟨delivered, hdelivered, hkeys, heq⟩ := ih
    obtain ⟨hlong, hclosed, hdata | ⟨hdata, k', hk', hrejected⟩⟩ := he
    · refine ⟨(datagram, k) :: delivered, hdelivered.cons_cons _,
        List.forall_mem_cons.mpr ⟨hk, hkeys⟩, ?_⟩
      rw [List.flatMap_cons, List.flatMap_cons, heq, hdata]
    · refine ⟨delivered, hdelivered.trans (List.sublist_cons_self _ _), hkeys, ?_⟩
      have hlong' : k_minPacketLen < (wiped datagram).length := by
        rw [length_wiped]
        exact hlong
      rw [List.flatMap_cons, hdata, heq,
        (openPacket_of_not_accepted io aead hlong' (hclosed k' hk' hrejected k hk)).2,
        List.nil_append]

end

/-! ### Runs -/

section

variable {io : StreamIO} {aead : Aead} {keys : List Str}

/-- What has been delivered and what waits: of the datagrams so far, the earlier ones have been
    delivered, each opened with one of the keys, or dropped, and the backlog holds some of the later
    ones. -/
structure InOrder (io : StreamIO) (aead : Aead) (keys : List Str) (before : List Arrival)
    (emitted : List Message) (s : MulticastSource) : Prop where
  key : s.key.value = [] ∨ s.key.value ∈ keys
  history : ∃ (earlier later : List Str) (delivered : List (Str × Str)),
    before.map Arrival.datagram = earlier ++ later ∧
    (delivered.map Prod.fst).Sublist earlier ∧
    (∀ d ∈ delivered, d.2 ∈ keys) ∧
    emitted = (delivered.flatMap fun d => messagesUnder io aead d.2 d.1) ∧
    Waits aead keys later s.backlog

/-- What is assumed of a call: the datagram is long enough for a packet, and the keys are among
    those given. -/
structure Admitted (aead : Aead) (keys : List Str) (a : Arrival) : Prop where
  long : k_minPacketLen < a.datagram.length
  closed : StaysClosed aead keys a.datagram
  stored : ∀ key ∈ answers a.steps, key.value = [] ∨ key.value ∈ keys

/-- The key after steps of the query thread is one of those given. -/
theorem Admitted.key {a : Arrival} (ha : Admitted aead keys a) {s : MulticastSource}
    (hs : s.key.value = [] ∨ s.key.value ∈ keys) {qs : List QueryStep}
    (hqs : ∀ key ∈ answers qs, key ∈ answers a.steps) :
    (s.queryRuns qs).key.value = [] ∨ (s.queryRuns qs).key.value ∈ keys :=
  key_queryRuns_of (P := fun k => k.value = [] ∨ k.value ∈ keys) hs
    fun key hkey => ha.stored key (hqs key hkey)

/-- **One call keeps the order.** -/
theorem processPacket_inOrder (before : List Arrival) (emitted : List Message)
    (s : MulticastSource) (a : Arrival) (hs : InOrder io aead keys before emitted s)
    (ha : Admitted aead keys a ∧ s.NoOvertaking io aead a) :
    ∃ s' out, machine io aead s a = some (s', out) ∧
      InOrder io aead keys (before ++ [a]) (emitted ++ out) s' := by
  obtain ⟨hadm, hovertaking⟩ := ha
  obtain ⟨hkey, earlier, later, delivered, hbefore, hsub, hopened, hemitted, hwaits⟩ := hs
  have hbefore' : (before ++ [a]).map Arrival.datagram = earlier ++ (later ++ [a.datagram]) := by
    simp [hbefore]
  have harrive : (s.arrive a).key.value = [] ∨ (s.arrive a).key.value ∈ keys :=
    hadm.key (s := { s with lastReceiveTime := a.receiveTime }) hkey fun key hkey => by simp [hkey]
  by_cases hnil : (s.arrive a).key.value = []
  · -- No key: the datagram waits behind the others.
    refine ⟨_, _, machine_of_processPacket io aead (processPacket_of_noKey io aead s a hnil), ?_, ?_⟩
    · unfold clearOldBacklog bufferAndQuery
      rw [key_startQuery]
      exact key_queryRuns_of (P := fun k => k.value = [] ∨ k.value ∈ keys) (Or.inl hnil)
        fun key hkey => hadm.stored key (by simp [hkey])
    · refine ⟨earlier, later ++ [a.datagram], delivered, hbefore', hsub, hopened, ?_, ?_⟩
      · rw [hemitted, List.append_nil]
      · apply Waits.clearOld
        simp only [bufferAndQuery, backlog_startQuery, backlog_queryRuns, backlog_arrive]
        exact hwaits.pushBack ⟨hadm.long, hadm.closed, Or.inl rfl⟩
  · have hk : (s.arrive a).key.value ∈ keys := harrive.resolve_left hnil
    have hcall := processPacket_of_key io aead s a hnil
    have hkey' : ((s.arrive a).queryRuns a.beforeBacklog).key.value = [] ∨
        ((s.arrive a).queryRuns a.beforeBacklog).key.value ∈ keys :=
      hadm.key harrive fun key hkey => by simp [hkey]
    have hwaits' : Waits aead keys later ((s.arrive a).queryRuns a.beforeBacklog).backlog := by
      rw [backlog_queryRuns, backlog_arrive]
      exact hwaits
    -- Whether the backlog is drained or not, some datagrams are delivered and the others wait.
    obtain ⟨d, pairs, earlier', later', hdrain, hsplit, hpairs, hkeys, hout, hleft, hdkey, hfirst⟩ :
        ∃ (d : MulticastSource × List Message) (pairs : List (Str × Str))
          (earlier' later' : List Str),
          ((s.arrive a).queryRuns a.beforeBacklog).processBacklog io aead = some d ∧
          later = earlier' ++ later' ∧ (pairs.map Prod.fst).Sublist earlier' ∧
          (∀ d ∈ pairs, d.2 ∈ keys) ∧
          d.2 = (pairs.flatMap fun d => messagesUnder io aead d.2 d.1) ∧
          Waits aead keys later' d.1.backlog ∧
          (d.1.key.value = [] ∨ d.1.key.value ∈ keys) ∧
          (d.1.backlog.entries = [] ∨
            messagesUnder io aead (s.arrive a).key.value a.datagram = []) := by
      rcases processBacklog_of_long io aead _ hwaits'.long with ⟨hgone, hdrain⟩ | ⟨hthere, hdrain⟩
      · refine ⟨_, [], [], later, hdrain, rfl, List.nil_sublist _, List.forall_mem_nil _, rfl,
          hwaits', hkey', ?_⟩
        rw [backlog_queryRuns, backlog_arrive]
        exact hovertaking hnil hgone
      · obtain ⟨pairs, hpairs, hkeys, hout⟩ := hwaits'.drained io (hkey'.resolve_left hthere)
        exact ⟨_, pairs, later, [], hdrain, by simp, hpairs, hkeys, hout, .of_empty rfl, hkey',
          Or.inl rfl⟩
    rw [hdrain, Option.bind_some] at hcall
    have hall : earlier ++ (later ++ [a.datagram]) =
        (earlier ++ earlier') ++ (later' ++ [a.datagram]) := by
      simp [hsplit]
    have hsub' : ((delivered ++ pairs).map Prod.fst).Sublist (earlier ++ earlier') := by
      rw [List.map_append]
      exact hsub.append hpairs
    have hopened' : ∀ d ∈ delivered ++ pairs, d.2 ∈ keys := fun d hd =>
      (List.mem_append.mp hd).elim (hopened d) (hkeys d)
    have hemitted' : emitted ++ d.2 =
        (delivered ++ pairs).flatMap fun d => messagesUnder io aead d.2 d.1 := by
      rw [List.flatMap_append, hemitted, hout]
    by_cases haccept : MessagePacket.Accepted aead (s.arrive a).key.value a.datagram
    · obtain ⟨rc, left, hopen, hrc⟩ := openPacket_of_accepted io aead haccept
      rw [hopen, Option.map_some, if_pos hrc] at hcall
      refine ⟨_, _, machine_of_processPacket io aead hcall, hdkey, ?_⟩
      rcases hfirst with hempty | hnone
      · -- Nothing waits, and the datagram is delivered.
        refine ⟨earlier ++ (later ++ [a.datagram]), [],
          (delivered ++ pairs) ++ [(a.datagram, (s.arrive a).key.value)], by simp [hbefore], ?_, ?_,
          ?_, ?_⟩
        · rw [hall, List.map_append]
          exact hsub'.append (List.sublist_append_right _ _)
        · intro p hp
          rcases List.mem_append.mp hp with hp | hp
          · exact hopened' p hp
          · rw [List.mem_singleton.mp hp]
            exact hk
        · rw [List.flatMap_append, ← hemitted', List.flatMap_singleton, List.append_assoc]
        · exact (Waits.of_empty hempty).clearOld _
      · -- The datagram has no messages.
        refine ⟨earlier ++ earlier', later' ++ [a.datagram], delivered ++ pairs,
          hbefore'.trans hall, hsub', hopened', ?_, ?_⟩
        · rw [← hemitted', hnone, List.append_nil]
        · obtain ⟨waiting, hwaiting, hbuffered⟩ := hleft.clearOld a.clearTime
          exact ⟨waiting, hwaiting.trans (List.sublist_append_left _ _), hbuffered⟩
    · -- What is left of the datagram waits.
      obtain ⟨hopen, -⟩ := openPacket_of_not_accepted io aead hadm.long haccept
      rw [hopen, Option.map_some, if_neg (by norm_num)] at hcall
      refine ⟨_, _, machine_of_processPacket io aead hcall, ?_, ?_⟩
      · exact key_discardKey_of (P := fun k => k.value = [] ∨ k.value ∈ keys) (Or.inl rfl)
          hadm.stored
      · refine ⟨earlier ++ earlier', later' ++ [a.datagram], delivered ++ pairs,
          hbefore'.trans hall, hsub', hopened', hemitted', ?_⟩
        apply Waits.clearOld
        rw [backlog_discardKey]
        exact hleft.pushBack ⟨hadm.long, hadm.closed, Or.inr ⟨rfl, _, hk, haccept⟩⟩

/-- **In order, at most once and in full.**  In every run on datagrams of more than 40 bytes in which
    no call delivers its datagram past the backlog, what is delivered are the messages of some of the
    datagrams, in the order of their arrival, each opened with a key that the query thread stores.
    Of the cipher it is assumed that a datagram that one of these keys does not open is opened by none
    of them once it is wiped. -/
theorem delivers_in_order (io : StreamIO) (aead : Aead) (arrivals : List Arrival)
    (hlong : ∀ a ∈ arrivals, k_minPacketLen < a.datagram.length)
    (hclosed : ∀ a ∈ arrivals, StaysClosed aead (storedKeys arrivals) a.datagram)
    (horder : (machine io aead).Meets (NoOvertaking io aead) init arrivals) :
    ∃ (s : MulticastSource) (delivered : List (Str × Str)),
      (delivered.map Prod.fst).Sublist (arrivals.map Arrival.datagram) ∧
      (∀ d ∈ delivered, d.2 ∈ storedKeys arrivals) ∧
      (machine io aead).run init arrivals =
        some (s, delivered.flatMap fun d => messagesUnder io aead d.2 d.1) := by
  have hadm : ∀ a ∈ arrivals, Admitted aead (storedKeys arrivals) a := by
    intro a ha
    refine ⟨hlong a ha, hclosed a ha, fun key hkey => ?_⟩
    by_cases hnil : key.value = []
    · exact Or.inl hnil
    · right
      refine List.mem_filter.mpr ⟨?_, by simpa using hnil⟩
      exact List.mem_map.mpr ⟨key, List.mem_flatMap.mpr ⟨a, ha, hkey⟩, rfl⟩
  have hstart : InOrder io aead (storedKeys arrivals) [] [] init :=
    ⟨Or.inl rfl, [], [], [], rfl, List.nil_sublist _, List.forall_mem_nil _, rfl, .of_empty rfl⟩
  obtain ⟨s, out, hrun, hs⟩ := (machine io aead).run_history processPacket_inOrder arrivals [] []
    init hstart (horder.and_forall hadm)
  obtain ⟨-, earlier, later, delivered, hbefore, hsub, hopened, hemitted, -⟩ := hs
  simp only [List.nil_append] at hbefore hemitted
  refine ⟨s, delivered, ?_, hopened, by rw [hrun, hemitted]⟩
  rw [hbefore]
  exact hsub.trans (List.sublist_append_left _ _)

end

/-! ### A datagram that overtakes -/

/-- A message of the sender with the given number. -/
def numberedMessage (n : UInt8) : Message := { senderMessage with message := ⟨[n], by simp⟩ }

/-- The sender's datagram with that message. -/
def numberedDatagram (n : UInt8) : Str :=
  MessagePacket.sealed tagAead senderKey ⟨List.replicate k_nonceLen 0, length_zeroNonce⟩
    ((numberedMessage n).write prefixedStreams)

/-- A datagram with the tag of the sender's key has the same messages under every key that opens
    it. -/
theorem messagesUnder_tagAead {datagram : Str} (hlong : k_minPacketLen < datagram.length)
    (htag : datagram.drop (datagram.length - k_macLen) = keyTag senderKey) (key : Str) :
    messagesUnder prefixedStreams tagAead key datagram = [] ∨
      messagesUnder prefixedStreams tagAead key datagram =
        messagesUnder prefixedStreams tagAead senderKey datagram := by
  by_cases hkey : keyTag key = keyTag senderKey
  · -- The cipher looks at the tag of the key alone.
    have hdecrypt : tagAead.decrypt key = tagAead.decrypt senderKey := by
      funext nonce cipher
      simp only [tagAead, hkey]
    have hopen : openPacket prefixedStreams tagAead key datagram =
        openPacket prefixedStreams tagAead senderKey datagram := by
      simp only [openPacket, MessagePacket.decrypt, hdecrypt]
    right
    rw [messagesUnder, messagesUnder, hopen]
  · left
    refine (openPacket_of_not_accepted prefixedStreams tagAead hlong ?_).2
    rintro ⟨pkt, hpkt, hrc⟩
    obtain ⟨-, hbuf⟩ := MessagePacket.holds_ofBuf hpkt
    have hcipher : tagAead.decrypt key (pkt.buf.take k_nonceLen)
        ((pkt.buf.drop k_nonceLen).take (datagram.length - k_nonceLen)) = none := by
      have htake : (datagram.drop k_nonceLen).take (datagram.length - k_nonceLen) =
          datagram.drop k_nonceLen := List.take_of_length_le (by simp)
      have hmac : k_nonceLen + (datagram.length - k_nonceLen - k_macLen) =
          datagram.length - k_macLen := by
        have : k_minPacketLen = k_nonceLen + k_macLen := rfl
        omega
      simp only [hbuf, tagAead, htake, List.length_drop, List.drop_drop, hmac, htag]
      rw [if_neg]
      rintro ⟨-, heq⟩
      exact hkey heq.symm
    unfold MessagePacket.decrypt at hrc
    rw [if_pos (show datagram.length > k_nonceLen + k_macLen from hlong), hcipher] at hrc
    exact absurd hrc (by norm_num)

/-- Two datagrams arrive without a key, and while the second is being buffered the query ends with
    the key and another one starts.  It fails after the third datagram's call has read the key, and
    a last one finds the key again. -/
def overtakingArrivals : List Arrival :=
  [arrivalAt (numberedDatagram 1) (seconds 10) [],
   { arrivalAt (numberedDatagram 2) (seconds 10) [] with
     beforeStart := [.store { value := senderKey }, .setDone] },
   { arrivalAt (numberedDatagram 3) (seconds 11) [] with
     beforeBacklog := [.store { value := [] }, .setDone] },
   arrivalAt (numberedDatagram 4) (seconds 12) [],
   arrivalAt (numberedDatagram 5) (seconds 13) [.store { value := senderKey }, .setDone]]

/-- The sender's key found for the first two datagrams, and lost while nothing is buffered. -/
def orderedArrivals : List Arrival :=
  [arrivalAt (numberedDatagram 1) (seconds 10) [],
   { arrivalAt (numberedDatagram 2) (seconds 10) [] with
     beforeStart := [.store { value := senderKey }, .setDone] },
   arrivalAt (numberedDatagram 3) (seconds 11) [],
   { arrivalAt (numberedDatagram 4) (seconds 12) [] with
     beforeBacklog := [.store { value := [] }, .setDone] }]

theorem delivers_in_order_ordered :
    ∃ (s : MulticastSource) (delivered : List (Str × Str)),
      (delivered.map Prod.fst).Sublist (orderedArrivals.map Arrival.datagram) ∧
      (∀ d ∈ delivered, d.2 ∈ storedKeys orderedArrivals) ∧
      (machine prefixedStreams tagAead).run init orderedArrivals =
        some (s, delivered.flatMap fun d => messagesUnder prefixedStreams tagAead d.2 d.1) :=
  delivers_in_order prefixedStreams tagAead orderedArrivals (by decide) (by decide) (by decide)

/-- **A datagram overtakes two others.**  The third datagram is delivered before the first two, which
    are delivered later. -/
theorem datagram_overtakes :
    ((machine prefixedStreams tagAead).run init overtakingArrivals).map (·.2) =
        some ([3, 1, 2, 4, 5].map numberedMessage) ∧
      ¬ ∃ (s : MulticastSource) (delivered : List (Str × Str)),
        (delivered.map Prod.fst).Sublist (overtakingArrivals.map Arrival.datagram) ∧
        (machine prefixedStreams tagAead).run init overtakingArrivals =
          some (s, delivered.flatMap fun d => messagesUnder prefixedStreams tagAead d.2 d.1) := by
  have hrun : ((machine prefixedStreams tagAead).run init overtakingArrivals).map (·.2) =
      some ([3, 1, 2, 4, 5].map numberedMessage) := by decide
  refine ⟨hrun, ?_⟩
  rintro ⟨s, delivered, hsub, hout⟩
  have hemitted : (delivered.flatMap fun d => messagesUnder prefixedStreams tagAead d.2 d.1) =
      [3, 1, 2, 4, 5].map numberedMessage := by
    rw [hout] at hrun
    exact Option.some.inj hrun
  -- In whatever way the datagrams are opened, their messages come in their order.
  have htags : ∀ d ∈ overtakingArrivals.map Arrival.datagram, k_minPacketLen < d.length ∧
      d.drop (d.length - k_macLen) = keyTag senderKey := by decide
  have hopened : ∀ (pairs : List (Str × Str)),
      (∀ d ∈ pairs, k_minPacketLen < d.1.length ∧
        d.1.drop (d.1.length - k_macLen) = keyTag senderKey) →
      (pairs.flatMap fun d => messagesUnder prefixedStreams tagAead d.2 d.1).Sublist
        ((pairs.map Prod.fst).flatMap (messagesUnder prefixedStreams tagAead senderKey)) := by
    intro pairs hpairs
    induction pairs with
    | nil => exact List.Sublist.refl _
    | cons d pairs ih =>
      have hrest := ih fun d hd => hpairs d (by simp [hd])
      obtain ⟨hlong, htag⟩ := hpairs d (by simp)
      rw [List.map_cons, List.flatMap_cons, List.flatMap_cons]
      rcases messagesUnder_tagAead hlong htag d.2 with h | h
      · rw [h]
        exact hrest.trans (List.sublist_append_right _ _)
      · rw [h]
        exact (List.Sublist.refl _).append hrest
  have horder := hopened delivered fun d hd => htags d.1 (hsub.subset (List.mem_map_of_mem hd))
  rw [hemitted] at horder
  have hlist : ([3, 1, 2, 4, 5].map numberedMessage).Sublist
      ((overtakingArrivals.map Arrival.datagram).flatMap
        (messagesUnder prefixedStreams tagAead senderKey)) :=
    horder.trans (hsub.flatMap _)
  exact absurd hlist (by decide)

end MulticastSource

end Mclog
