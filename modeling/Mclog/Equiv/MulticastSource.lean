import Mclog.Equiv.Message
import Mclog.Equiv.MessagePacket
import Mclog.MulticastSource

/-!
# Runs of a multicast source

`processPacket_of_noKey` and `processPacket_of_key` say once what a call does: without a key the
datagram is buffered and a query started; with one the backlog is drained and the datagram opened,
or, if it does not decrypt, buffered with the key discarded.  Two properties of runs follow by the
history rule:

* `run_of_long`: as long as every datagram has more than 40 bytes, no call aborts, and in every
  state reached a call aborts exactly when a shorter datagram meets a key;
* `delivered_append_pending`: as long as nothing is dropped from the backlog, the messages delivered
  and those of the buffered datagrams are, in order, the messages of all datagrams so far.  So
  datagrams that do not decrypt make no difference (`delivered_eq_of_inserts`).
-/

namespace Mclog

open General

/-- The answers the query thread may store in some steps. -/
def answers (qs : List QueryStep) : List MulticastSourceKey :=
  qs.filterMap fun
    | .store key => some key
    | .setDone => none

/-- The steps the query thread takes during a call. -/
def Arrival.steps (a : Arrival) : List QueryStep :=
  a.beforeKey ++ a.beforeBacklog ++ a.beforeDiscard ++ a.beforeUpdated ++ a.beforeStart

@[simp] theorem answers_steps (a : Arrival) :
    answers a.steps = answers a.beforeKey ++ answers a.beforeBacklog ++ answers a.beforeDiscard ++
      answers a.beforeUpdated ++ answers a.beforeStart := by
  simp [Arrival.steps, answers]

namespace MulticastSource

@[simp] theorem value_copy (key : MulticastSourceKey) : key.copy.value = key.value := rfl

/-! ### The query thread -/

/-- A step of the query thread leaves the backlog alone. -/
@[simp] theorem backlog_queryStep (s : MulticastSource) (q : QueryStep) :
    (s.queryStep q).backlog = s.backlog := by
  cases q <;> simp only [queryStep] <;> split_ifs <;> rfl

@[simp] theorem backlog_queryRuns (s : MulticastSource) (qs : List QueryStep) :
    (s.queryRuns qs).backlog = s.backlog := by
  induction qs generalizing s with
  | nil => rfl
  | cons q qs ih =>
    rw [queryRuns, List.foldl_cons]
    exact (ih _).trans (backlog_queryStep s q)

@[simp] theorem backlog_startQuery (s : MulticastSource) : s.startQuery.backlog = s.backlog := by
  unfold startQuery
  split_ifs <;> rfl

@[simp] theorem key_startQuery (s : MulticastSource) : s.startQuery.key = s.key := by
  unfold startQuery
  split_ifs <;> rfl

/-- Discarding the key buffers what is left of the datagram. -/
@[simp] theorem backlog_discardKey (s : MulticastSource) (a : Arrival) (data : Str) :
    (s.discardKey a data).backlog = s.backlog.pushBack ⟨a.bufferTime, data⟩ := by
  unfold discardKey
  dsimp only
  split_ifs <;> simp

/-- After steps of the query thread, the key is the old one or one of those stored. -/
theorem key_queryRuns (s : MulticastSource) (qs : List QueryStep) :
    (s.queryRuns qs).key = s.key ∨ (s.queryRuns qs).key ∈ answers qs := by
  induction qs generalizing s with
  | nil => exact Or.inl rfl
  | cons q qs ih =>
    rw [queryRuns, List.foldl_cons]
    rcases ih (s.queryStep q) with h | h
    · rw [queryRuns] at h
      rw [h]
      cases q with
      | store key =>
        by_cases hq : s.query = .asking
        · right
          simp [queryStep, hq, answers]
        · left
          simp [queryStep, hq]
      | setDone =>
        left
        simp only [queryStep]
        split_ifs <;> rfl
    · right
      cases q with
      | store key => exact List.mem_cons_of_mem _ h
      | setDone => exact h

/-- A property of the key that the answers stored have too is kept. -/
theorem key_queryRuns_of {P : MulticastSourceKey → Prop} {s : MulticastSource} {qs : List QueryStep}
    (hs : P s.key) (hqs : ∀ key ∈ answers qs, P key) : P (s.queryRuns qs).key := by
  rcases key_queryRuns s qs with h | h
  · rw [h]
    exact hs
  · exact hqs _ h

/-! ### Opening packets -/

section

variable (io : StreamIO) (aead : Aead)

/-- Opening a datagram aborts exactly when it is too short for a packet. -/
theorem openPacket_eq_none_iff (mcastKey data : Str) :
    openPacket io aead mcastKey data = none ↔ data.length ≤ k_minPacketLen := by
  have h := MessagePacket.ofBuf_isSome_iff data
  unfold openPacket
  cases hpkt : MessagePacket.ofBuf data with
  | none =>
    simp only [hpkt, Option.isSome_none, Bool.false_eq_true, false_iff, not_lt] at h
    simpa using h
  | some pkt =>
    simp only [hpkt, Option.isSome_some, true_iff] at h
    simpa using h

/-- The messages a datagram holds for a receiver with the key. -/
def messagesUnder (mcastKey data : Str) : List Message :=
  match openPacket io aead mcastKey data with
  | some (_, msgs, _) => msgs
  | none => []

/-- What is left in the buffer of a datagram whose decryption failed. -/
def wiped (data : Str) : Str :=
  overwrite data k_nonceLen (List.replicate (data.length - k_minPacketLen) 0)

@[simp] theorem length_wiped (data : Str) : (wiped data).length = data.length :=
  length_overwrite _ _ _

/-- A datagram that is accepted is opened, and its messages read. -/
theorem openPacket_of_accepted {mcastKey data : Str}
    (h : MessagePacket.Accepted aead mcastKey data) :
    ∃ rc left, openPacket io aead mcastKey data = some (rc, messagesUnder io aead mcastKey data, left)
      ∧ 0 < rc := by
  obtain ⟨pkt, hpkt, hrc⟩ := h
  have hopen : openPacket io aead mcastKey data =
      some ((pkt.decrypt aead mcastKey data.length).1,
        Message.readAll io (pkt.decrypt aead mcastKey data.length).2.payload,
        (pkt.decrypt aead mcastKey data.length).2.buf) := by
    simp [openPacket, hpkt, hrc]
  refine ⟨_, (pkt.decrypt aead mcastKey data.length).2.buf, ?_, hrc⟩
  rw [messagesUnder, hopen]

/-- A datagram that is long enough but not accepted is wiped, and gives no messages. -/
theorem openPacket_of_not_accepted {mcastKey data : Str} (hlen : k_minPacketLen < data.length)
    (h : ¬ MessagePacket.Accepted aead mcastKey data) :
    openPacket io aead mcastKey data = some (-1, [], wiped data) ∧
      messagesUnder io aead mcastKey data = [] := by
  obtain ⟨pkt, hpkt⟩ :=
    Option.isSome_iff_exists.mp ((MessagePacket.ofBuf_isSome_iff data).mpr hlen)
  obtain ⟨-, hbuf⟩ := MessagePacket.holds_ofBuf hpkt
  have hopen : openPacket io aead mcastKey data = some (-1, [], wiped data) := by
    rcases MessagePacket.decrypt_cases aead mcastKey pkt data.length hlen with hrc | ⟨hrc, hleft⟩
    · refine absurd ⟨pkt, hpkt, ?_⟩ h
      rw [hrc]
      exact_mod_cast lt_of_le_of_lt (Nat.zero_le _) hlen
    · simp [openPacket, hpkt, hrc, hleft, hbuf, wiped]
  refine ⟨hopen, ?_⟩
  rw [messagesUnder, hopen]

/-- Opening a packet keeps the length of its buffer. -/
theorem length_openPacket {mcastKey data : Str} {r : Int × List Message × Str}
    (h : openPacket io aead mcastKey data = some r) : r.2.2.length = data.length := by
  unfold openPacket at h
  simp only [Option.bind_eq_bind, Option.bind_eq_some_iff, Option.pure_def, Option.some.injEq] at h
  obtain ⟨pkt, hpkt, rfl⟩ := h
  rw [MessagePacket.length_decrypt, (MessagePacket.holds_ofBuf hpkt).2]

/-- The backlog's loop aborts on an entry too short for a packet, and otherwise gives the messages
    of all entries. -/
theorem openBacklog_of_long (mcastKey : Str) (entries : List BacklogEntry)
    (h : ∀ e ∈ entries, k_minPacketLen < e.data.length) :
    openBacklog io aead mcastKey entries =
      some (entries.flatMap fun e => messagesUnder io aead mcastKey e.data) := by
  induction entries with
  | nil => rfl
  | cons e entries ih =>
    have hlong := h e (by simp)
    unfold openBacklog
    cases hopen : openPacket io aead mcastKey e.data with
    | none =>
      have := (openPacket_eq_none_iff io aead mcastKey e.data).mp hopen
      omega
    | some r =>
      have hmsgs : messagesUnder io aead mcastKey e.data = r.2.1 := by rw [messagesUnder, hopen]
      simp [ih fun e' he' => h e' (by simp [he']), hmsgs]

/-! ### What one call does -/

@[simp] theorem backlog_arrive (s : MulticastSource) (a : Arrival) :
    (s.arrive a).backlog = s.backlog := by
  simp [arrive]

/-- The source after a call that found no key. -/
def bufferAndQuery (s : MulticastSource) (a : Arrival) : MulticastSource :=
  ({ s with backlog := s.backlog.pushBack ⟨a.bufferTime, a.datagram⟩ }.queryRuns
    a.beforeStart).startQuery

/-- **Without a key** the datagram is buffered and a query started. -/
theorem processPacket_of_noKey (s : MulticastSource) (a : Arrival)
    (h : (s.arrive a).key.value = []) :
    s.processPacket io aead a =
      some (true, ((s.arrive a).bufferAndQuery a).clearOldBacklog a.clearTime, []) := by
  unfold processPacket
  simp [h, bufferAndQuery]

/-- **With a key** the backlog is drained if the key is still there, and the datagram opened; if it
    does not decrypt, the key is discarded. -/
theorem processPacket_of_key (s : MulticastSource) (a : Arrival)
    (h : (s.arrive a).key.value ≠ []) :
    s.processPacket io aead a =
      (((s.arrive a).queryRuns a.beforeBacklog).processBacklog io aead).bind fun d =>
        (openPacket io aead (s.arrive a).key.value a.datagram).map fun o =>
          if o.1 > 0 then (!o.2.1.isEmpty, d.1.clearOldBacklog a.clearTime, d.2 ++ o.2.1)
          else (false, (d.1.discardKey a o.2.2).clearOldBacklog a.clearTime, d.2) := by
  unfold processPacket
  have hkey : (s.arrive a).key.value.isEmpty = false := by simpa using h
  simp only [value_copy, hkey, Bool.not_false, if_true]
  cases ((s.arrive a).queryRuns a.beforeBacklog).processBacklog io aead with
  | none => rfl
  | some d =>
    cases openPacket io aead (s.arrive a).key.value a.datagram with
    | none => rfl
    | some o =>
      by_cases hrc : o.1 > 0
      · simp [hrc]
      · simp [hrc]

/-- A call is a step of the machine. -/
theorem machine_of_processPacket {s : MulticastSource} {a : Arrival}
    {r : Bool × MulticastSource × List Message} (h : s.processPacket io aead a = some r) :
    machine io aead s a = some (r.2.1, r.2.2) := by
  unfold machine
  rw [h]
  rfl

/-- Draining with a key gives the messages of all entries, without one nothing. -/
theorem processBacklog_of_long (s : MulticastSource)
    (h : ∀ e ∈ s.backlog.entries, k_minPacketLen < e.data.length) :
    (s.key.value = [] ∧ s.processBacklog io aead = some (s, [])) ∨
      s.key.value ≠ [] ∧ s.processBacklog io aead =
        some ({ s with backlog := .empty },
          s.backlog.entries.flatMap fun e => messagesUnder io aead s.key.value e.data) := by
  by_cases hkey : s.key.value = []
  · left
    simp [processBacklog, hkey]
  · right
    refine ⟨hkey, ?_⟩
    unfold processBacklog
    simp [hkey, openBacklog_of_long io aead s.key.value _ h]

/-! ### Short datagrams -/

/-- Every buffered datagram is long enough for a packet. -/
def LongBacklog (s : MulticastSource) : Prop :=
  ∀ e ∈ s.backlog.entries, k_minPacketLen < e.data.length

/-- Buffering a long datagram keeps the backlog long. -/
theorem LongBacklog.pushBack {b : Backlog} (h : ∀ e ∈ b.entries, k_minPacketLen < e.data.length)
    {e : BacklogEntry} (he : k_minPacketLen < e.data.length) :
    ∀ e' ∈ (b.pushBack e).entries, k_minPacketLen < e'.data.length := by
  intro e' he'
  unfold Backlog.pushBack at he'
  split_ifs at he' with hroom
  · rcases List.mem_append.mp he' with hold | hnew
    · exact h e' hold
    · rw [List.mem_singleton.mp hnew]
      exact he
  · exact h e' he'

theorem LongBacklog.clearOldBacklog {s : MulticastSource} (h : s.LongBacklog) (now : Int) :
    (s.clearOldBacklog now).LongBacklog :=
  fun e he => h e ((List.dropWhile_sublist _).subset he)

theorem LongBacklog.discardKey {s : MulticastSource} (h : s.LongBacklog) (a : Arrival) {data : Str}
    (hdata : k_minPacketLen < data.length) : (s.discardKey a data).LongBacklog := by
  unfold LongBacklog
  rw [backlog_discardKey]
  exact LongBacklog.pushBack h hdata

/-- **When a call aborts.**  With only long datagrams buffered, a call aborts exactly when it reads
    a key and its datagram is too short for a packet; after a long datagram the backlog is long. -/
theorem processPacket_long (s : MulticastSource) (h : s.LongBacklog) (a : Arrival) :
    (s.processPacket io aead a = none ↔
      (s.arrive a).key.value ≠ [] ∧ a.datagram.length ≤ k_minPacketLen) ∧
    (k_minPacketLen < a.datagram.length →
      ∀ r, s.processPacket io aead a = some r → r.2.1.LongBacklog) := by
  by_cases hkey : (s.arrive a).key.value = []
  · -- Without a key no packet is made.
    rw [processPacket_of_noKey io aead s a hkey]
    refine ⟨by simp [hkey], ?_⟩
    rintro hlong r hr
    obtain rfl := Option.some.inj hr
    apply LongBacklog.clearOldBacklog
    unfold bufferAndQuery LongBacklog
    simpa using LongBacklog.pushBack (b := s.backlog) h (e := ⟨a.bufferTime, a.datagram⟩) hlong
  · rw [processPacket_of_key io aead s a hkey]
    have hbacklog : ∀ e ∈ ((s.arrive a).queryRuns a.beforeBacklog).backlog.entries,
        k_minPacketLen < e.data.length := by
      rw [backlog_queryRuns, backlog_arrive]
      exact h
    obtain ⟨d, hd, hdlong⟩ : ∃ d, ((s.arrive a).queryRuns a.beforeBacklog).processBacklog io aead =
        some d ∧ d.1.LongBacklog := by
      rcases processBacklog_of_long io aead _ hbacklog with ⟨-, hd⟩ | ⟨-, hd⟩
      · exact ⟨_, hd, hbacklog⟩
      · exact ⟨_, hd, by intro e he; simp [Backlog.empty] at he⟩
    rw [hd, Option.bind_some]
    constructor
    · rw [Option.map_eq_none_iff, openPacket_eq_none_iff]
      exact ⟨fun hshort => ⟨hkey, hshort⟩, fun h => h.2⟩
    · rintro hlong r hr
      obtain ⟨o, ho, rfl⟩ := Option.map_eq_some_iff.mp hr
      split_ifs with hrc
      · exact hdlong.clearOldBacklog _
      · -- The datagram did not decrypt: what is buffered is as long as it was.
        have hdata : o.2.2.length = a.datagram.length := length_openPacket io aead ho
        exact (hdlong.discardKey a (by rw [hdata]; exact hlong)).clearOldBacklog _

/-- **No abort without short datagrams.**  In every run on datagrams of more than 40 bytes, with the
    query thread storing any keys at any moments, no call aborts; and in the state reached a further
    call aborts exactly when it reads a key and its datagram has at most 40 bytes. -/
theorem run_of_long (arrivals : List Arrival)
    (hlong : ∀ a ∈ arrivals, k_minPacketLen < a.datagram.length) :
    ∃ s out, (machine io aead).run init arrivals = some (s, out) ∧
      ∀ a, s.processPacket io aead a = none ↔
        (s.arrive a).key.value ≠ [] ∧ a.datagram.length ≤ k_minPacketLen := by
  have hinit : init.LongBacklog := by
    intro e he
    simp [init, Backlog.empty] at he
  have hstep : ∀ (s : MulticastSource) (a : Arrival), s.LongBacklog →
      k_minPacketLen < a.datagram.length →
      ∃ s' out, machine io aead s a = some (s', out) ∧ s'.LongBacklog := by
    intro s a hs ha
    obtain ⟨hnone, hkeep⟩ := processPacket_long io aead s hs a
    cases hr : s.processPacket io aead a with
    | none =>
      have := (hnone.mp hr).2
      omega
    | some r => exact ⟨_, _, machine_of_processPacket io aead hr, hkeep ha r hr⟩
  obtain ⟨s, out, hrun, hs⟩ := (machine io aead).run_invariant hstep arrivals init hinit
    ((machine io aead).meets_of_forall init arrivals hlong)
  exact ⟨s, out, hrun, fun a => (processPacket_long io aead s hs a).1⟩

/-! ### Undecryptable datagrams -/

variable (mcastKey : Str)

/-- What is assumed of a call.  The datagram is long enough for a packet, and one that does not
    decrypt under the sender's key does not once it has been wiped either.  The query thread stores
    the sender's key or, when the query failed, none; and it does not store a failure between the
    two reads of the key. -/
structure Fair (a : Arrival) : Prop where
  long : k_minPacketLen < a.datagram.length
  wiped : ¬ MessagePacket.Accepted aead mcastKey a.datagram →
    ¬ MessagePacket.Accepted aead mcastKey (wiped a.datagram)
  stored : ∀ key ∈ answers a.steps, key.value = [] ∨ key.value = mcastKey
  between : ∀ key ∈ answers a.beforeBacklog, key.value = mcastKey

instance (a : Arrival) : Decidable (Fair aead mcastKey a) :=
  decidable_of_iff (k_minPacketLen < a.datagram.length ∧
      (¬ MessagePacket.Accepted aead mcastKey a.datagram →
        ¬ MessagePacket.Accepted aead mcastKey (MulticastSource.wiped a.datagram)) ∧
      (∀ key ∈ answers a.steps, key.value = [] ∨ key.value = mcastKey) ∧
      ∀ key ∈ answers a.beforeBacklog, key.value = mcastKey)
    ⟨fun ⟨h₁, h₂, h₃, h₄⟩ => ⟨h₁, h₂, h₃, h₄⟩, fun h => ⟨h.1, h.2, h.3, h.4⟩⟩

/-- No buffered datagram is dropped.  A call without a key finds room in the backlog and no entry of
    5 seconds or more, and less than 5 seconds pass between buffering the datagram and clearing. -/
def NothingDropped (s : MulticastSource) (a : Arrival) : Prop :=
  ((s.arrive a).key.value = [] → s.backlog.entries.length < backlogMaxLength ∧
    ∀ e ∈ s.backlog.entries, a.clearTime < e.receiveTime + seconds 5) ∧
  a.clearTime < a.bufferTime + seconds 5

instance (s : MulticastSource) (a : Arrival) : Decidable (s.NothingDropped a) := by
  unfold NothingDropped
  infer_instance

/-- The messages of the buffered datagrams. -/
def pending (s : MulticastSource) : List Message :=
  s.backlog.entries.flatMap fun e => messagesUnder io aead mcastKey e.data

/-- The messages of all datagrams so far are those delivered and those pending, in order. -/
structure Accounted (before : List Arrival) (emitted : List Message) (s : MulticastSource) :
    Prop where
  key : s.key.value = [] ∨ s.key.value = mcastKey
  long : s.LongBacklog
  account : emitted ++ s.pending io aead mcastKey =
    before.flatMap fun a => messagesUnder io aead mcastKey a.datagram

/-- Nothing old is cleared from a backlog of fresh entries. -/
theorem clearOld_of_fresh (b : Backlog) (now : Int)
    (h : ∀ e ∈ b.entries, now < e.receiveTime + seconds 5) : b.clearOld now = b := by
  obtain ⟨entries, hlen⟩ := b
  unfold Backlog.clearOld
  cases entries with
  | nil => rfl
  | cons e entries =>
    have he := h e (by simp)
    simp [he]

/-- The source after a call with no key: the datagram is at the back of the backlog. -/
theorem entries_bufferAndQuery {s : MulticastSource} {a : Arrival}
    (hroom : s.backlog.entries.length < backlogMaxLength) :
    (s.bufferAndQuery a).backlog.entries = s.backlog.entries ++ [⟨a.bufferTime, a.datagram⟩] := by
  unfold bufferAndQuery
  simp [Backlog.pushBack, hroom]

/-- A property of keys that the empty key and the answers stored have is one of the key after it
    has been discarded. -/
theorem key_discardKey_of {P : MulticastSourceKey → Prop} {s : MulticastSource} {a : Arrival}
    {data : Str} (hnil : P { value := [] })
    (hsteps : ∀ key ∈ answers a.steps, P key) :
    P (s.discardKey a data).key := by
  unfold discardKey
  dsimp only
  have hupdated : ∀ s' : MulticastSource, P s'.key → P (s'.queryRuns a.beforeUpdated).key :=
    fun s' hs' => key_queryRuns_of hs' fun key hkey => hsteps key (by simp [hkey])
  split_ifs
  · rw [key_startQuery]
    exact key_queryRuns_of (hupdated _ hnil) fun key hkey => hsteps key (by simp [hkey])
  · exact hupdated _ hnil

/-- **One call accounts for its datagram**: its messages are delivered or pending, after all those
    of earlier datagrams. -/
theorem processPacket_accounted (hne : mcastKey ≠ []) (before : List Arrival)
    (emitted : List Message) (s : MulticastSource) (a : Arrival)
    (hs : Accounted io aead mcastKey before emitted s)
    (ha : Fair aead mcastKey a ∧ s.NothingDropped a) :
    ∃ s' out, machine io aead s a = some (s', out) ∧
      Accounted io aead mcastKey (before ++ [a]) (emitted ++ out) s' := by
  obtain ⟨hfair, hdrop, hfresh⟩ := ha
  have hkey : (s.arrive a).key.value = [] ∨ (s.arrive a).key.value = mcastKey :=
    key_queryRuns_of (P := fun k => k.value = [] ∨ k.value = mcastKey)
      (s := { s with lastReceiveTime := a.receiveTime }) hs.key
      fun key hkey => hfair.stored key (by simp [hkey])
  have haccount := hs.account
  by_cases hnil : (s.arrive a).key.value = []
  · -- No key: the datagram joins the back of the backlog.
    obtain ⟨hroom, hold⟩ := hdrop hnil
    have hentries := entries_bufferAndQuery (s := s.arrive a) (a := a) (by simpa using hroom)
    rw [backlog_arrive] at hentries
    have hclear : ((s.arrive a).bufferAndQuery a).backlog.clearOld a.clearTime =
        ((s.arrive a).bufferAndQuery a).backlog := by
      apply clearOld_of_fresh
      intro e he
      rw [hentries] at he
      rcases List.mem_append.mp he with he | he
      · exact hold e he
      · rw [List.mem_singleton.mp he]
        exact hfresh
    refine ⟨_, _, machine_of_processPacket io aead (processPacket_of_noKey io aead s a hnil),
      ?_, ?_, ?_⟩
    · unfold clearOldBacklog bufferAndQuery
      rw [key_startQuery]
      exact key_queryRuns_of (P := fun k => k.value = [] ∨ k.value = mcastKey) (Or.inl hnil)
        fun key hkey => hfair.stored key (by simp [hkey])
    · intro e he
      unfold clearOldBacklog at he
      rw [hclear, hentries] at he
      rcases List.mem_append.mp he with he | he
      · exact hs.long e he
      · rw [List.mem_singleton.mp he]
        exact hfair.long
    · unfold pending clearOldBacklog
      rw [hclear, hentries, List.append_nil, List.flatMap_append, List.flatMap_append, ← haccount,
        pending, List.append_assoc]
      simp
  · -- The key is there, and still is when the backlog is drained.
    have hvalue : (s.arrive a).key.value = mcastKey := hkey.resolve_left hnil
    have hlater : ((s.arrive a).queryRuns a.beforeBacklog).key.value = mcastKey :=
      key_queryRuns_of (P := fun k => k.value = mcastKey) hvalue hfair.between
    have hlong : ∀ e ∈ ((s.arrive a).queryRuns a.beforeBacklog).backlog.entries,
        k_minPacketLen < e.data.length := by
      rw [backlog_queryRuns, backlog_arrive]
      exact hs.long
    rcases processBacklog_of_long io aead _ hlong with ⟨h, -⟩ | ⟨-, hdrain⟩
    · exact absurd (h.symm.trans hlater) (Ne.symm hne)
    · rw [hlater, backlog_queryRuns, backlog_arrive] at hdrain
      have hcall := processPacket_of_key io aead s a hnil
      rw [hdrain, Option.bind_some, hvalue] at hcall
      by_cases haccept : MessagePacket.Accepted aead mcastKey a.datagram
      · obtain ⟨rc, left, hopen, hrc⟩ := openPacket_of_accepted io aead haccept
        rw [hopen, Option.map_some, if_pos hrc] at hcall
        refine ⟨_, _, machine_of_processPacket io aead hcall, ?_, ?_, ?_⟩
        · exact Or.inr hlater
        · intro e he
          simp [clearOldBacklog, Backlog.clearOld, Backlog.empty] at he
        · rw [List.flatMap_append, ← haccount]
          simp [pending, clearOldBacklog, Backlog.clearOld, Backlog.empty]
      · -- What is left of the datagram is buffered, and has no messages.
        obtain ⟨hopen, hnone⟩ := openPacket_of_not_accepted io aead hfair.long haccept
        have hwiped : k_minPacketLen < (wiped a.datagram).length := by
          rw [length_wiped]
          exact hfair.long
        have hleft := (openPacket_of_not_accepted io aead hwiped (hfair.wiped haccept)).2
        rw [hopen, Option.map_some, if_neg (by norm_num)] at hcall
        refine ⟨_, _, machine_of_processPacket io aead hcall, ?_, ?_, ?_⟩
        · exact key_discardKey_of (P := fun k => k.value = [] ∨ k.value = mcastKey) (Or.inl rfl)
            hfair.stored
        · apply LongBacklog.clearOldBacklog
          apply LongBacklog.discardKey
          · intro e he
            simp [Backlog.empty] at he
          · rw [length_wiped]
            exact hfair.long
        · rw [List.flatMap_append, ← haccount]
          have hone : ((Backlog.empty.pushBack ⟨a.bufferTime, wiped a.datagram⟩).clearOld
              a.clearTime).entries = [⟨a.bufferTime, wiped a.datagram⟩] := by
            rw [clearOld_of_fresh]
            · rfl
            · intro e he
              obtain rfl : e = ⟨a.bufferTime, wiped a.datagram⟩ := by
                simpa [Backlog.pushBack, Backlog.empty, backlogMaxLength] using he
              exact hfresh
          simp [pending, clearOldBacklog, hone, hnone, hleft]

/-- Over a run that drops nothing, the messages delivered and then those pending are the messages of
    the datagrams, in order. -/
theorem delivered_append_pending (hne : mcastKey ≠ []) (start : MulticastSource)
    (hkey : start.key.value = [] ∨ start.key.value = mcastKey)
    (hempty : start.backlog.entries = []) (arrivals : List Arrival)
    (hfair : ∀ a ∈ arrivals, Fair aead mcastKey a)
    (hdrop : (machine io aead).Meets NothingDropped start arrivals) :
    ∃ s out, (machine io aead).run start arrivals = some (s, out) ∧
      out ++ s.pending io aead mcastKey =
        arrivals.flatMap fun a => messagesUnder io aead mcastKey a.datagram := by
  have hstart : Accounted io aead mcastKey [] [] start := by
    refine ⟨hkey, ?_, ?_⟩
    · intro e he
      simp [hempty] at he
    · simp [pending, hempty]
  obtain ⟨s, out, hrun, hs⟩ := (machine io aead).run_history
    (processPacket_accounted io aead mcastKey hne) arrivals [] [] start hstart
    (hdrop.and_forall hfair)
  exact ⟨s, out, hrun, by simpa using hs.account⟩

/-- **Undecryptable traffic does not disturb a source** that drops nothing.  Take two runs from the
    same empty source, the datagrams of the second being those of the first with datagrams inserted
    that the sender's key does not open.  Neither aborts; what is delivered and what is pending is
    the same, and when both backlogs are drained the same messages have been delivered. -/
theorem delivered_eq_of_inserts (hne : mcastKey ≠ []) (start : MulticastSource)
    (hkey : start.key.value = [] ∨ start.key.value = mcastKey)
    (hempty : start.backlog.entries = []) (common all : List Arrival)
    (hins : Inserts (fun d => ¬ MessagePacket.Accepted aead mcastKey d)
      (common.map Arrival.datagram) (all.map Arrival.datagram))
    (hfair : ∀ a ∈ common ++ all, Fair aead mcastKey a)
    (hcommon : (machine io aead).Meets NothingDropped start common)
    (hall : (machine io aead).Meets NothingDropped start all) :
    ∃ s out s' out', (machine io aead).run start common = some (s, out) ∧
      (machine io aead).run start all = some (s', out') ∧
      out' ++ s'.pending io aead mcastKey = out ++ s.pending io aead mcastKey ∧
      (s.backlog.entries = [] → s'.backlog.entries = [] → out' = out) := by
  obtain ⟨s, out, hrun, hout⟩ := delivered_append_pending io aead mcastKey hne start hkey hempty
    common (fun a ha => hfair a (by simp [ha])) hcommon
  obtain ⟨s', out', hrun', hout'⟩ := delivered_append_pending io aead mcastKey hne start hkey hempty
    all (fun a ha => hfair a (by simp [ha])) hall
  -- The datagrams inserted have no messages.
  have hsame := hins.flatMap_eq (messagesUnder io aead mcastKey) fun d hd hextra => by
    obtain ⟨a, ha, rfl⟩ := List.mem_map.mp hd
    exact (openPacket_of_not_accepted io aead (hfair a (by simp [ha])).long hextra).2
  rw [List.flatMap_map, List.flatMap_map, ← hout, ← hout'] at hsame
  refine ⟨s, out, s', out', hrun, hrun', hsame, ?_⟩
  intro hs hs'
  simpa [pending, hs, hs'] using hsame

end

/-! ### A forged datagram -/

/-- The sender's key. -/
def senderKey : Str := str "key"

/-- A message of the sender. -/
def senderMessage : Message :=
  ⟨⟨⟨1⟩, .user, .info, ⟨⟨str "host", length_host_le⟩, ⟨str "app", length_app_le⟩, 1⟩⟩,
    ⟨str "x", length_x_le⟩⟩

/-- The sender's datagram with that message. -/
def senderDatagram : Str :=
  MessagePacket.sealed tagAead senderKey ⟨List.replicate k_nonceLen 0, length_zeroNonce⟩
    (senderMessage.write prefixedStreams)

/-- A datagram from somewhere else. -/
def forgedDatagram : Str := List.replicate 41 255

/-- A datagram that arrives at the given time and is processed at once, after some steps of the
    query thread. -/
def arrivalAt (datagram : Str) (time : Int) (beforeKey : List QueryStep) : Arrival where
  datagram := datagram
  receiveTime := time
  bufferTime := time
  expireTime := time
  clearTime := time
  beforeKey := beforeKey

/-- The sender's first datagram starts a query that finds the key. -/
def commonArrivals : List Arrival :=
  [arrivalAt senderDatagram (seconds 10) [],
   arrivalAt senderDatagram (seconds 11) [.store { value := senderKey }, .setDone],
   arrivalAt senderDatagram (seconds 20) []]

/-- The same with a forged datagram before the second one; the query it causes fails. -/
def disturbedArrivals : List Arrival :=
  [arrivalAt senderDatagram (seconds 10) [],
   arrivalAt forgedDatagram (seconds 11) [.store { value := senderKey }, .setDone],
   arrivalAt senderDatagram (seconds 11) [.store { value := [] }, .setDone],
   arrivalAt senderDatagram (seconds 20) []]

/-- The same with a forged datagram before the second one, and the key found again. -/
def toleratedArrivals : List Arrival :=
  [arrivalAt senderDatagram (seconds 10) [],
   arrivalAt forgedDatagram (seconds 11) [.store { value := senderKey }, .setDone],
   arrivalAt senderDatagram (seconds 11) [],
   arrivalAt senderDatagram (seconds 12) [.store { value := senderKey }, .setDone]]

/-- A forged datagram that a source tolerates. -/
theorem delivered_eq_tolerated :
    ∃ s out s' out', (machine prefixedStreams tagAead).run init commonArrivals = some (s, out) ∧
      (machine prefixedStreams tagAead).run init toleratedArrivals = some (s', out') ∧
      out' ++ s'.pending prefixedStreams tagAead senderKey =
        out ++ s.pending prefixedStreams tagAead senderKey ∧
      (s.backlog.entries = [] → s'.backlog.entries = [] → out' = out) :=
  delivered_eq_of_inserts prefixedStreams tagAead senderKey (by decide) init (by decide) (by decide)
    commonArrivals toleratedArrivals
    (.keep _ (.insert _ (by decide) (.keep _ (.keep _ .nil)))) (by decide) (by decide) (by decide)

/-- **A forged datagram costs a message.**  It makes the source discard the sender's key; the query
    it causes fails, and the sender's next datagram is dropped from the backlog. -/
theorem forged_datagram_disturbs :
    Inserts (fun d => ¬ MessagePacket.Accepted tagAead senderKey d)
        (commonArrivals.map Arrival.datagram) (disturbedArrivals.map Arrival.datagram) ∧
      (disturbedArrivals.eraseIdx 1).map
          (fun a => (a.receiveTime, a.bufferTime, a.expireTime, a.clearTime)) =
        commonArrivals.map (fun a => (a.receiveTime, a.bufferTime, a.expireTime, a.clearTime)) ∧
      ((machine prefixedStreams tagAead).run init commonArrivals).map (·.2) =
        some [senderMessage, senderMessage, senderMessage] ∧
      ((machine prefixedStreams tagAead).run init disturbedArrivals).map (·.2) =
        some [senderMessage] :=
  ⟨.keep _ (.insert _ (by decide) (.keep _ (.keep _ .nil))), by decide, by decide, by decide⟩

end MulticastSource

end Mclog
