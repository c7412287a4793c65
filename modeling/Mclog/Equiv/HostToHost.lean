import Mclog.Equiv.DaemonThreads
import Mclog.Equiv.DeliveryOrder
import Mclog.Equiv.MulticastReceiver

/-!
# From host to host

What a receiver hands on as coming from an mclogd of another host.  A source keeps what it has not
delivered yet in its backlog (`heldIn`), in order; so with a single key, what it has delivered and
what it holds are some of what its datagrams say (`saysSome_of_run`), or all of it if nothing is lost
from the backlog (`saysAll_of_run`).  The datagrams of an mclogd say what its `MulticastSender` has
accepted.  So what a receiver hands on is some of that, in order (`delivers_accepted`), or all that has
been put into packets (`delivers_all`); and nothing else whoever sends (`delivers_authentic`).
-/

namespace Mclog

open General

namespace MulticastSource

section

variable (io : StreamIO) (aead : Aead) (key : Str)

/-- The messages that wait in a backlog. -/
def heldIn (b : Backlog) : List Message :=
  b.entries.flatMap fun e => messagesUnder io aead key e.data

/-- What is assumed of a call: the query thread stores the key or nothing, and if the key does not
    open the datagram, it does not open what is left of it. -/
structure ForKey (a : Arrival) : Prop where
  answers : ∀ k ∈ answers a.steps, k.value = [] ∨ k.value = key
  closed : ¬ MessagePacket.Accepted aead key a.datagram →
    ¬ MessagePacket.Accepted aead key (wiped a.datagram)

/-- What a call has done when it clears the old entries, by what is left of the backlog `b`: it has
    delivered what is not left, or it has also buffered what is left of the datagram. -/
inductive Called (s : MulticastSource) (a : Arrival) (msgs : List Message) (t : MulticastSource) :
    Prop where
  | passed (hleft : t.backlog = s.backlog ∨ t.backlog = .empty)
      (hheld : msgs ++ heldIn io aead key t.backlog =
        heldIn io aead key s.backlog ++ messagesUnder io aead key a.datagram)
  | buffered (b : Backlog) (data : Str) (hleft : b = s.backlog ∨ b = .empty)
      (hbacklog : t.backlog = b.pushBack ⟨a.bufferTime, data⟩)
      (hheld : msgs ++ (heldIn io aead key b ++ messagesUnder io aead key data) =
        heldIn io aead key s.backlog ++ messagesUnder io aead key a.datagram)

variable {io aead key}

/-- A datagram that is not accepted gives no messages. -/
theorem messagesUnder_of_not_accepted {datagram : Str}
    (h : ¬ MessagePacket.Accepted aead key datagram) : messagesUnder io aead key datagram = [] := by
  by_cases hlong : k_minPacketLen < datagram.length
  · exact (openPacket_of_not_accepted io aead hlong h).2
  · rw [messagesUnder, (openPacket_eq_none_iff io aead key datagram).mpr (not_lt.mp hlong)]

/-- Steps of the query thread store the key or nothing. -/
theorem ForKey.queryRuns {a : Arrival} (ha : ForKey aead key a) {s : MulticastSource}
    (hs : s.key.value = [] ∨ s.key.value = key) {qs : List QueryStep}
    (hqs : ∀ k ∈ Mclog.answers qs, k ∈ Mclog.answers a.steps) :
    (s.queryRuns qs).key.value = [] ∨ (s.queryRuns qs).key.value = key :=
  key_queryRuns_of (P := fun k => k.value = [] ∨ k.value = key) hs
    fun k hk => ha.answers k (hqs k hk)

/-- **One call**, if the datagram is not delivered past the backlog. -/
theorem processPacket_called {s s' : MulticastSource} {a : Arrival} {msgs : List Message}
    (hkey : s.key.value = [] ∨ s.key.value = key)
    (ha : ForKey aead key a) (horder : s.NoOvertaking io aead a)
    (h : machine io aead s a = some (s', msgs)) :
    ∃ t : MulticastSource, s' = t.clearOldBacklog a.clearTime ∧
      (t.key.value = [] ∨ t.key.value = key) ∧ Called io aead key s a msgs t := by
  have harrive : (s.arrive a).key.value = [] ∨ (s.arrive a).key.value = key :=
    ha.queryRuns (s := { s with lastReceiveTime := a.receiveTime }) hkey fun k hk => by simp [hk]
  obtain ⟨r, hr, heq⟩ := Option.map_eq_some_iff.mp h
  obtain ⟨rfl, rfl⟩ := Prod.mk.inj heq
  by_cases hnil : (s.arrive a).key.value = []
  · -- The datagram is buffered.
    rw [processPacket_of_noKey io aead s a hnil] at hr
    obtain rfl := Option.some.inj hr
    refine ⟨_, rfl, ?_, .buffered s.backlog a.datagram (Or.inl rfl) ?_ rfl⟩
    · unfold bufferAndQuery
      rw [key_startQuery]
      let buffered : MulticastSource :=
        { s.arrive a with backlog := (s.arrive a).backlog.pushBack ⟨a.bufferTime, a.datagram⟩ }
      have hbuffered : buffered.key.value = [] ∨ buffered.key.value = key := harrive
      exact ha.queryRuns hbuffered fun k hk => by simp [hk]
    · unfold bufferAndQuery
      rw [backlog_startQuery, backlog_queryRuns, backlog_arrive]
  · rw [processPacket_of_key io aead s a hnil] at hr
    obtain ⟨⟨s₁, waited⟩, hd, hopen⟩ := Option.bind_eq_some_iff.mp hr
    obtain ⟨o, ho, rfl⟩ := Option.map_eq_some_iff.mp hopen
    rw [harrive.resolve_left hnil] at ho
    have hcurrent : ((s.arrive a).queryRuns a.beforeBacklog).key.value = [] ∨
        ((s.arrive a).queryRuns a.beforeBacklog).key.value = key :=
      ha.queryRuns harrive fun k hk => by simp [hk]
    -- The backlog is drained, or it is left alone and the datagram overtakes nothing.
    obtain ⟨hkey₁, hleft, hwaited, hfirst⟩ : (s₁.key.value = [] ∨ s₁.key.value = key) ∧
        (s₁.backlog = s.backlog ∨ s₁.backlog = .empty) ∧
        waited ++ heldIn io aead key s₁.backlog = heldIn io aead key s.backlog ∧
        (heldIn io aead key s₁.backlog = [] ∨ messagesUnder io aead key a.datagram = []) := by
      rcases processBacklog_cases io aead hd with ⟨hgone, rfl, rfl⟩ | ⟨hthere, rfl, rfl⟩
      · rw [backlog_queryRuns, backlog_arrive]
        refine ⟨hcurrent, Or.inl rfl, rfl, ?_⟩
        have hovertaking := horder hnil hgone
        rw [harrive.resolve_left hnil] at hovertaking
        unfold heldIn
        exact hovertaking.imp_left fun hempty => by rw [hempty]; rfl
      · refine ⟨hcurrent, Or.inr rfl, ?_, Or.inl rfl⟩
        rw [hcurrent.resolve_left hthere, backlog_queryRuns, backlog_arrive]
        exact List.append_nil _
    by_cases hrc : o.1 > 0
    · rw [if_pos hrc, openPacket_msgs io aead ho]
      refine ⟨s₁, rfl, hkey₁, .passed hleft ?_⟩
      rw [← hwaited]
      rcases hfirst with hempty | hnone
      · rw [hempty, List.append_nil, List.append_nil]
      · rw [hnone, List.append_nil, List.append_nil]
    · rw [if_neg hrc]
      have hrejected := not_accepted_of_openPacket io aead ho hrc
      refine ⟨_, rfl, ?_, .buffered s₁.backlog (wiped a.datagram) hleft ?_ ?_⟩
      · exact key_discardKey_of (P := fun k => k.value = [] ∨ k.value = key) (Or.inl rfl) ha.answers
      · rw [backlog_discardKey, openPacket_left io aead ho hrc]
      · rw [messagesUnder_of_not_accepted hrejected,
          messagesUnder_of_not_accepted (ha.closed hrejected), List.append_nil, List.append_nil]
        exact hwaited

/-! ### What may be lost -/

/-- Buffering one more, unless the backlog is full. -/
theorem heldIn_pushBack (b : Backlog) (e : BacklogEntry) :
    (heldIn io aead key (b.pushBack e)).Sublist
      (heldIn io aead key b ++ messagesUnder io aead key e.data) := by
  unfold Backlog.pushBack
  split_ifs with hroom
  · show ((b.entries ++ [e]).flatMap _).Sublist _
    rw [List.flatMap_append, List.flatMap_singleton]
    exact List.Sublist.refl _
  · exact List.sublist_append_left _ _

/-- A call delivers what was held, then what the datagram says, or holds some of it back. -/
theorem Called.sublist {s t : MulticastSource} {a : Arrival} {msgs : List Message}
    (h : Called io aead key s a msgs t) (now : Int) :
    (msgs ++ heldIn io aead key (t.clearOldBacklog now).backlog).Sublist
      (heldIn io aead key s.backlog ++ messagesUnder io aead key a.datagram) := by
  have hcleared : (heldIn io aead key (t.clearOldBacklog now).backlog).Sublist
      (heldIn io aead key t.backlog) := (List.dropWhile_sublist _).flatMap _
  cases h with
  | passed hleft hheld =>
    rw [← hheld]
    exact hcleared.append_left msgs
  | buffered b data hleft hbacklog hheld =>
    rw [← hheld]
    rw [hbacklog] at hcleared
    exact (hcleared.trans (heldIn_pushBack b _)).append_left msgs

/-- The source of an endpoint has the key or none, and what it has delivered and what it holds are
    some of what its datagrams say. -/
structure SaysSome (io : StreamIO) (aead : Aead) (key : Str) (before : List (Option Arrival))
    (emitted : List Message) (st : Option MulticastSource) : Prop where
  hasKey : (st.getD init).key.value = [] ∨ (st.getD init).key.value = key
  sublist : (emitted ++ heldIn io aead key (st.getD init).backlog).Sublist
    (before.reduceOption.flatMap fun a => messagesUnder io aead key a.datagram)

/-- **One event** of the source's slot. -/
theorem SaysSome.slot {before : List (Option Arrival)} {emitted out : List Message}
    {st st' : Option MulticastSource} {e : Option Arrival}
    (h : SaysSome io aead key before emitted st) (he : ∀ a ∈ e, ForKey aead key a)
    (horder : ∀ a ∈ e, (st.getD init).NoOvertaking io aead a)
    (hslot : (machine io aead).slot init st e = some (st', out)) :
    SaysSome io aead key (before ++ [e]) (emitted ++ out) st' := by
  obtain ⟨hkey, hsub⟩ := h
  cases e with
  | none =>
    -- The source is taken away with what it holds.
    obtain ⟨rfl, rfl⟩ := Prod.mk.inj (Option.some.inj hslot)
    refine ⟨Or.inl rfl, ?_⟩
    rw [List.reduceOption_append, List.flatMap_append]
    show (emitted ++ [] ++ []).Sublist (_ ++ [])
    rw [List.append_nil, List.append_nil, List.append_nil]
    exact (List.sublist_append_left _ _).trans hsub
  | some a =>
    obtain ⟨⟨s₁, out₁⟩, hmachine, heq⟩ := Option.map_eq_some_iff.mp hslot
    obtain ⟨rfl, rfl⟩ := Prod.mk.inj heq
    obtain ⟨t, rfl, hkey', hcalled⟩ :=
      processPacket_called hkey (he a rfl) (horder a rfl) hmachine
    refine ⟨hkey', ?_⟩
    rw [List.reduceOption_append, List.flatMap_append]
    show (emitted ++ out₁ ++ heldIn io aead key (t.clearOldBacklog a.clearTime).backlog).Sublist
      (_ ++ (messagesUnder io aead key a.datagram ++ []))
    rw [List.append_nil, List.append_assoc]
    apply ((hcalled.sublist a.clearTime).append_left emitted).trans
    rw [← List.append_assoc]
    exact hsub.append_right _

/-- **A run** of the source's slot. -/
theorem saysSome_of_run {es : List (Option Arrival)} {st : Option MulticastSource}
    {msgs : List Message} (hes : ∀ a ∈ es.reduceOption, ForKey aead key a)
    (horder : ((machine io aead).slot init).Meets
      (fun st e => ∀ a ∈ e, (st.getD init).NoOvertaking io aead a) none es)
    (h : ((machine io aead).slot init).run none es = some (st, msgs)) :
    SaysSome io aead key es msgs st := by
  have hes' : ∀ e ∈ es, ∀ a ∈ e, ForKey aead key a := by
    intro e he a ha
    rw [Option.mem_def] at ha
    exact hes a (List.reduceOption_mem_iff.mpr (ha ▸ he))
  have hrun := Machine.history_of_run _ (R := SaysSome io aead key)
    (fun before emitted st e st' out hR hC hslot => hR.slot hC.1 hC.2 hslot) es [] [] none st msgs
    ⟨Or.inl rfl, List.nil_sublist _⟩ (horder.and_forall hes') h
  exact hrun

/-! ### When nothing is lost -/

/-- The backlog has room for the datagram, and nothing in it is too old when the call ends. -/
structure Keeps (s : MulticastSource) (a : Arrival) : Prop where
  room : s.backlog.entries.length < backlogMaxLength
  fresh : a.clearTime < a.bufferTime + seconds 5
  entries : ∀ e ∈ s.backlog.entries, a.clearTime < e.receiveTime + seconds 5

instance (s : MulticastSource) (a : Arrival) : Decidable (s.Keeps a) :=
  decidable_of_iff (s.backlog.entries.length < backlogMaxLength ∧
      a.clearTime < a.bufferTime + seconds 5 ∧
        ∀ e ∈ s.backlog.entries, a.clearTime < e.receiveTime + seconds 5)
    ⟨fun h => ⟨h.1, h.2.1, h.2.2⟩, fun h => ⟨h.room, h.fresh, h.entries⟩⟩

/-- Nothing is dropped from a backlog without old entries. -/
theorem backlog_clearOldBacklog {t : MulticastSource} {now : Int}
    (h : ∀ e ∈ t.backlog.entries, now < e.receiveTime + seconds 5) :
    (t.clearOldBacklog now).backlog.entries = t.backlog.entries := by
  show t.backlog.entries.dropWhile _ = _
  rw [List.dropWhile_eq_self_iff]
  intro hpos
  simpa using h _ (List.getElem_mem hpos)

/-- A call that keeps everything. -/
theorem Called.eq {s t : MulticastSource} {a : Arrival} {msgs : List Message}
    (h : Called io aead key s a msgs t) (hkeeps : s.Keeps a) :
    msgs ++ heldIn io aead key (t.clearOldBacklog a.clearTime).backlog =
      heldIn io aead key s.backlog ++ messagesUnder io aead key a.datagram := by
  have hempty : ∀ {b : Backlog}, (b = s.backlog ∨ b = .empty) →
      b.entries.length < backlogMaxLength ∧
        ∀ e ∈ b.entries, a.clearTime < e.receiveTime + seconds 5 := by
    rintro b (rfl | rfl)
    · exact ⟨hkeeps.room, hkeeps.entries⟩
    · exact ⟨by decide, by simp [Backlog.empty]⟩
  cases h with
  | passed hleft hheld =>
    rw [← hheld]
    unfold heldIn
    rw [backlog_clearOldBacklog (hempty hleft).2]
  | buffered b data hleft hbacklog hheld =>
    obtain ⟨hroom, hfresh⟩ := hempty hleft
    have hpushed : t.backlog.entries = b.entries ++ [⟨a.bufferTime, data⟩] := by
      rw [hbacklog, Backlog.pushBack, dif_pos hroom]
    have hkept : (t.clearOldBacklog a.clearTime).backlog.entries = t.backlog.entries := by
      apply backlog_clearOldBacklog
      intro e he
      rw [hpushed, List.mem_append, List.mem_singleton] at he
      rcases he with he | rfl
      · exact hfresh e he
      · exact hkeeps.fresh
    rw [← hheld]
    unfold heldIn
    rw [hkept, hpushed, List.flatMap_append, List.flatMap_singleton]

/-- What the source of an endpoint has delivered and what it holds are all that its datagrams say. -/
structure SaysAll (io : StreamIO) (aead : Aead) (key : Str) (before : List Arrival)
    (emitted : List Message) (s : MulticastSource) : Prop where
  hasKey : s.key.value = [] ∨ s.key.value = key
  eq : emitted ++ heldIn io aead key s.backlog =
    before.flatMap fun a => messagesUnder io aead key a.datagram

/-- **A run** of a source that keeps everything. -/
theorem saysAll_of_run {arrivals : List Arrival} {s : MulticastSource} {msgs : List Message}
    (harrivals : ∀ a ∈ arrivals, ForKey aead key a)
    (hkeeps : (machine io aead).Meets (fun s a => s.NoOvertaking io aead a ∧ s.Keeps a) init arrivals)
    (h : (machine io aead).run init arrivals = some (s, msgs)) :
    SaysAll io aead key arrivals msgs s := by
  have hstep : ∀ (before : List Arrival) (emitted : List Message) (s : MulticastSource)
      (a : Arrival) (s' : MulticastSource) (out : List Message),
      SaysAll io aead key before emitted s →
      ForKey aead key a ∧ s.NoOvertaking io aead a ∧ s.Keeps a →
      machine io aead s a = some (s', out) →
      SaysAll io aead key (before ++ [a]) (emitted ++ out) s' := by
    rintro before emitted s a s' out ⟨hkey, heq⟩ ⟨ha, horder, hkeeps⟩ hmachine
    obtain ⟨t, rfl, hkey', hcalled⟩ := processPacket_called hkey ha horder hmachine
    refine ⟨hkey', ?_⟩
    rw [List.append_assoc, hcalled.eq hkeeps, ← List.append_assoc, heq, List.flatMap_append,
      List.flatMap_singleton]
  have hrun := Machine.history_of_run _ (R := SaysAll io aead key) hstep arrivals [] [] init s msgs
    ⟨Or.inl rfl, rfl⟩ (hkeeps.and_forall harrivals) h
  exact hrun

end

end MulticastSource

/-! ### What the datagrams of an mclogd say -/

section

variable {io : StreamIO} {aead : Aead} {key : Str}

/-- An encrypted packet says what was put into it, up to the first message that is not
    acceptable. -/
theorem messagesUnder_sealed (nonce : Nonce) (batch : List Message) :
    MulticastSource.messagesUnder io aead key
        (MessagePacket.sealed aead key nonce (encodeBatch io batch)) =
      batch.takeWhile fun m => decide m.Acceptable := by
  by_cases hempty : encodeBatch io batch = []
  · have hnothing : batch = [] := by
      by_contra hsome
      exact (encodeBatch_ne_nil_iff io batch).mpr hsome hempty
    rw [MulticastSource.messagesUnder_of_not_accepted]
    · rw [hnothing]
      rfl
    · rw [MessagePacket.accepted_sealed_iff, not_not]
      exact hempty
  · obtain ⟨pkt, hpkt, hrc, hpayload⟩ :=
      MessagePacket.decrypt_sealed aead key nonce (encodeBatch io batch) hempty
    have hread : MulticastSource.messagesUnder io aead key
        (MessagePacket.sealed aead key nonce (encodeBatch io batch)) =
          Message.readAll io (encodeBatch io batch) := by
      have hpos : 0 < (MessagePacket.sealed aead key nonce (encodeBatch io batch)).length := by
        rw [MessagePacket.length_sealed]
        exact Nat.add_pos_left (by decide) _
      simp [MulticastSource.messagesUnder, MulticastSource.openPacket, hpkt, hrc, hpos, hpayload]
    rw [hread]
    exact Message.readAll_encodeAll io batch

/-- The datagrams received are some of the packets sent, in order and none twice. -/
abbrev Relayed (received : List Str) (sent : List (List Str)) : Prop :=
  List.SublistForall₂ (· ∈ ·) received sent

/-- What the datagrams received say is some of what was put into the packets. -/
theorem Relayed.sublist {received : List Str} {sent : List (List Str)} (h : Relayed received sent)
    {batches : List (List Message)}
    (hsent : List.Forall₂ (DaemonThreads.Emitted io aead key) sent batches) :
    (received.flatMap (MulticastSource.messagesUnder io aead key)).Sublist batches.flatten := by
  induction h generalizing batches with
  | nil => exact List.nil_sublist _
  | cons hd _ ih =>
    cases hsent with
    | cons hout hsent =>
      obtain ⟨sender, rfl, -, nonce, hsealed⟩ := hout
      rw [List.flatMap_cons, List.flatten_cons, hsealed _ hd, messagesUnder_sealed]
      exact (List.takeWhile_sublist _).append (ih hsent)
  | cons_right _ ih =>
    cases hsent with
    | cons _ hsent =>
      rw [List.flatten_cons]
      exact (ih hsent).trans (List.sublist_append_right _ _)

/-- What the datagrams received say, when a datagram of each packet is received. -/
theorem messagesUnder_of_forall₂ {received : List Str} {sent : List (List Str)}
    (h : List.Forall₂ (· ∈ ·) received sent) {batches : List (List Message)}
    (hsent : List.Forall₂ (DaemonThreads.Emitted io aead key) sent batches)
    (hacceptable : ∀ msg ∈ batches.flatten, msg.Acceptable) :
    received.flatMap (MulticastSource.messagesUnder io aead key) = batches.flatten := by
  induction h generalizing batches with
  | nil =>
    cases hsent
    rfl
  | cons hd _ ih =>
    cases hsent with
    | @cons _ batch _ batches hout hsent =>
      obtain ⟨sender, rfl, -, nonce, hsealed⟩ := hout
      have hbatch : batch.takeWhile (fun m => decide m.Acceptable) = batch := by
        rw [List.takeWhile_eq_self_iff]
        exact fun msg hmsg => decide_eq_true (hacceptable msg (by simp [hmsg]))
      have hrest : ∀ msg ∈ batches.flatten, msg.Acceptable := fun msg hmsg =>
        hacceptable msg (List.mem_append_right batch hmsg)
      rw [List.flatMap_cons, List.flatten_cons, hsealed _ hd, messagesUnder_sealed, hbatch,
        ih hsent hrest]

/-- Datagrams that are not accepted say nothing. -/
theorem flatMap_filter_accepted (datagrams : List Str) :
    (datagrams.filter fun d => MessagePacket.Accepted aead key d).flatMap
        (MulticastSource.messagesUnder io aead key) =
      datagrams.flatMap (MulticastSource.messagesUnder io aead key) := by
  induction datagrams with
  | nil => rfl
  | cons d datagrams ih =>
    rw [List.filter_cons, List.flatMap_cons]
    split_ifs with haccepted
    · rw [List.flatMap_cons, ih]
    · rw [MulticastSource.messagesUnder_of_not_accepted (by simpa using haccepted), ih]
      rfl

namespace MulticastSource

/-- If all answers are the key or nothing, no other key is stored. -/
theorem eq_of_mem_storedKeys {arrivals : List Arrival} (h : ∀ a ∈ arrivals, ForKey aead key a)
    {k : Str} (hk : k ∈ storedKeys arrivals) : k = key := by
  unfold storedKeys at hk
  obtain ⟨hmem, hne⟩ := List.mem_filter.mp hk
  obtain ⟨answer, hanswer, rfl⟩ := List.mem_map.mp hmem
  obtain ⟨a, ha, hstored⟩ := List.mem_flatMap.mp hanswer
  rcases (h a ha).answers answer hstored with hnil | hkey
  · exact absurd hnil (of_decide_eq_true hne)
  · exact hkey

/-- With a single key, nothing is read from what is left of a datagram that it has not opened. -/
theorem accepted_of_readFrom {arrivals : List Arrival} (h : ∀ a ∈ arrivals, ForKey aead key a)
    {msg : Message}
    (hread : ReadFrom io aead (storedKeys arrivals) (arrivals.map Arrival.datagram) msg) :
    ∃ a ∈ arrivals, MessagePacket.Accepted aead key a.datagram ∧
      msg ∈ messagesUnder io aead key a.datagram := by
  have haccepted : ∀ data, msg ∈ messagesUnder io aead key data →
      MessagePacket.Accepted aead key data := by
    intro data hmsg
    by_contra hnot
    rw [messagesUnder_of_not_accepted hnot] at hmsg
    cases hmsg
  obtain ⟨k, hk, d, hd, data, hdata, hmsg⟩ := hread
  obtain ⟨a, ha, rfl⟩ := List.mem_map.mp hd
  obtain rfl := eq_of_mem_storedKeys h hk
  rcases hdata with rfl | ⟨rfl, k', hk', hrejected⟩
  · exact ⟨a, ha, haccepted _ hmsg, hmsg⟩
  · rw [eq_of_mem_storedKeys h hk'] at hrejected
    exact absurd (haccepted _ hmsg) ((h a ha).closed hrejected)

end MulticastSource

end

/-! ### From host to host -/

namespace MulticastReceiverThread

/-- **What one host accepts is what another hands on.**  An mclogd runs on one host and a receiver on
    another, each with any restarts and any other traffic.  Of the datagrams from the mclogd's
    endpoint, let those that its key opens be packets it has sent, in order and none twice, though
    some may be lost; let the key queries about the endpoint bring the mclogd's key or nothing, and
    a datagram that this key does not open not open once it is wiped; and let none be delivered past
    the backlog.  Then what the receiver hands on from this endpoint is some of what the sender
    accepted, in order and nothing twice, and the sender was called with nothing that had come by
    multicast to its host. -/
theorem delivers_accepted (io : StreamIO) (aead : Aead) (key : Str) (nonces : Nat → Nonce)
    (buf : Vector UInt8 1200) (pkt : MessagePacket)
    (hpkt : MessagePacket.ofBuf buf.toList = some pkt) (r : RestartResults)
    (d : DaemonThreads)
    (hd : Reachable (DaemonThreads.step io aead key nonces) (fun _ _ => True)
      (DaemonThreads.start pkt r) d)
    (calls : Mclogd.StartCalls) (cfg : Config) (acceptLocal : Bool)
    (es : List MulticastReceiverStep) (st : MulticastReceiverThread)
    (out : List (UdpEndpoint × Message))
    (hrun : (machine io aead).run (start calls cfg acceptLocal) es = some (st, out))
    (ep : UdpEndpoint) :
    let xs := packets (start calls cfg acceptLocal).toMulticastReceiver es
    let datagrams := (Family.inputs ep xs).map Arrival.datagram
    Relayed (datagrams.filter fun d => MessagePacket.Accepted aead key d)
        d.mcastSender.sender.sent →
    (∀ a ∈ Family.inputs ep xs, MulticastSource.ForKey aead key a) →
    ((MulticastSource.machine io aead).slot .init).Meets
      (fun st e => ∀ a ∈ e, (st.getD .init).NoOvertaking io aead a) none (sourceEvents ep xs) →
    (Family.outputs ep out).Sublist (DaemonThreads.acceptedIn d.mcastSenderCalls) ∧
      DaemonThreads.callsFrom .multicast d.mcastSenderCalls = [] := by
  intro xs datagrams hrelayed hkey horder
  have hsound : DaemonThreads.Sound io aead key d := DaemonThreads.sound_of_reachable hpkt hd
  refine ⟨?_, hsound.noMulticast⟩
  have hinputs : (sourceEvents ep xs).reduceOption = Family.inputs ep xs :=
    Family.reduceOption_events ep xs _
  have hsays := MulticastSource.saysSome_of_run (hinputs ▸ hkey) horder (source_run io aead hrun ep)
  have hsub := hsays.sublist
  rw [hinputs] at hsub
  obtain ⟨batches, hbatches, haccepted⟩ := hsound.batches
  -- The datagrams that the key does not open say nothing, so these are packets that were sent.
  have hsaid : (datagrams.flatMap (MulticastSource.messagesUnder io aead key)).Sublist
      batches.flatten := by
    rw [← flatMap_filter_accepted]
    exact hrelayed.sublist hbatches
  apply ((List.sublist_append_left _ _).trans hsub).trans
  rw [← List.flatMap_map]
  exact hsaid.trans haccepted

/-- The packet that mclogd multicasts before it exits comes, and then an undecryptable datagram. -/
def exitTraffic : List MulticastReceiverStep :=
  [receivedFrom 2 (MulticastSource.arrivalAt DaemonThreads.exitDatagram (seconds 10) []),
   receivedFrom 2 (MulticastSource.arrivalAt MulticastSource.forgedDatagram (seconds 11)
    [.store { value := oneSocketSender.key }, .setDone])]

/-- The datagrams of `exitTraffic` that come from the sender. -/
def exitArrivals : List Arrival :=
  Family.inputs senderEndpoint
    (packets (start {} receiverConfig false).toMulticastReceiver exitTraffic)

theorem exitTraffic_run : ∃ st out,
    (machine prefixedStreams tagAead).run (start {} receiverConfig false) exitTraffic =
      some (st, out) ∧ Family.outputs senderEndpoint out = [shortMessage] := by
  have hout : ((machine prefixedStreams tagAead).run (start {} receiverConfig false)
      exitTraffic).map (fun p => Family.outputs senderEndpoint p.2) = some [shortMessage] := by
    decide
  obtain ⟨⟨st, out⟩, hrun, hout⟩ := Option.map_eq_some_iff.mp hout
  exact ⟨st, out, hrun, hout⟩

theorem exitArrivals_complete :
    List.Forall₂ (· ∈ ·)
      ((exitArrivals.map Arrival.datagram).filter
        fun d => MessagePacket.Accepted tagAead oneSocketSender.key d)
      [[DaemonThreads.exitDatagram]] := by
  have haccepted : (exitArrivals.map Arrival.datagram).filter
      (fun d => MessagePacket.Accepted tagAead oneSocketSender.key d) =
        [DaemonThreads.exitDatagram] := by
    decide
  rw [haccepted]
  exact .cons (by simp) .nil

theorem exitArrivals_forKey :
    ∀ a ∈ exitArrivals, MulticastSource.ForKey tagAead oneSocketSender.key a := by
  have hkey : ∀ a ∈ exitArrivals,
      (∀ k ∈ answers a.steps, k.value = [] ∨ k.value = oneSocketSender.key) ∧
        (¬ MessagePacket.Accepted tagAead oneSocketSender.key a.datagram →
          ¬ MessagePacket.Accepted tagAead oneSocketSender.key
            (MulticastSource.wiped a.datagram)) := by
    decide
  exact fun a ha => ⟨(hkey a ha).1, (hkey a ha).2⟩

theorem delivers_accepted_exited :
    ∃ (d : DaemonThreads) (st : MulticastReceiverThread) (out : List (UdpEndpoint × Message)),
      (machine prefixedStreams tagAead).run (start {} receiverConfig false) exitTraffic =
        some (st, out) ∧
      Family.outputs senderEndpoint out = [shortMessage] ∧
      [shortMessage].Sublist (DaemonThreads.acceptedIn d.mcastSenderCalls) := by
  obtain ⟨pkt, d, hpkt, hd, -, -, hsent, -⟩ := DaemonThreads.exists_exited
  obtain ⟨st, out, hrun, hout⟩ := exitTraffic_run
  refine ⟨d, st, out, hrun, hout, ?_⟩
  rw [← hout]
  refine (delivers_accepted prefixedStreams tagAead oneSocketSender.key oneSocketSender.nonces _ pkt
    hpkt DaemonThreads.allOpened d (hd.mono fun _ _ _ => trivial) {} receiverConfig false exitTraffic
    st out hrun senderEndpoint ?_ exitArrivals_forKey (by decide)).1
  rw [hsent]
  exact List.sublistForall₂_iff.mpr ⟨_, exitArrivals_complete, List.Sublist.refl _⟩

/-- **Nothing forged is handed on.**  Anybody may send datagrams from the mclogd's endpoint, and the
    mclogd's own may be lost, repeated and come in any order.  Let those that its key opens be packets
    it has sent; let the key queries about the endpoint bring this key or nothing, and a datagram that
    the key does not open not open once it is wiped.  Then every message that the receiver hands on
    from this endpoint is one that the sender accepted, and the sender was called with nothing that
    had come by multicast to its host. -/
theorem delivers_authentic (io : StreamIO) (aead : Aead) (key : Str) (nonces : Nat → Nonce)
    (buf : Vector UInt8 1200) (pkt : MessagePacket)
    (hpkt : MessagePacket.ofBuf buf.toList = some pkt) (r : RestartResults)
    (d : DaemonThreads)
    (hd : Reachable (DaemonThreads.step io aead key nonces) (fun _ _ => True)
      (DaemonThreads.start pkt r) d)
    (calls : Mclogd.StartCalls) (cfg : Config) (acceptLocal : Bool)
    (es : List MulticastReceiverStep) (st : MulticastReceiverThread)
    (out : List (UdpEndpoint × Message))
    (hrun : (machine io aead).run (start calls cfg acceptLocal) es = some (st, out))
    (ep : UdpEndpoint) :
    let arrivals := Family.inputs ep (packets (start calls cfg acceptLocal).toMulticastReceiver es)
    (∀ a ∈ arrivals, MessagePacket.Accepted aead key a.datagram →
      ∃ packet ∈ d.mcastSender.sender.sent, a.datagram ∈ packet) →
    (∀ a ∈ arrivals, MulticastSource.ForKey aead key a) →
    (∀ msg ∈ Family.outputs ep out, msg ∈ DaemonThreads.acceptedIn d.mcastSenderCalls) ∧
      DaemonThreads.callsFrom .multicast d.mcastSenderCalls = [] := by
  intro arrivals hsent hkey
  have hsound : DaemonThreads.Sound io aead key d := DaemonThreads.sound_of_reachable hpkt hd
  refine ⟨fun msg hmsg => ?_, hsound.noMulticast⟩
  have hread := MulticastSource.run_slot_supplied _ (source_run io aead hrun ep) msg hmsg
  rw [sourceEvents, Family.reduceOption_events] at hread
  obtain ⟨a, ha, haccepted, hsays⟩ := MulticastSource.accepted_of_readFrom hkey hread
  -- A single datagram of a packet that was sent is relayed, too.
  obtain ⟨packet, hpacket, hmem⟩ := hsent a ha haccepted
  have hrelayed : Relayed [a.datagram] d.mcastSender.sender.sent :=
    List.sublistForall₂_iff.mpr ⟨[packet], .cons hmem .nil, List.singleton_sublist.mpr hpacket⟩
  obtain ⟨batches, hbatches, hbatched⟩ := hsound.batches
  have hsaid := hrelayed.sublist hbatches
  rw [List.flatMap_singleton] at hsaid
  exact (hsaid.trans hbatched).subset hsays

/-- The packet that mclogd multicasts before it exits comes twice, and then a forged datagram. -/
def replayTraffic : List MulticastReceiverStep :=
  [receivedFrom 2 (MulticastSource.arrivalAt DaemonThreads.exitDatagram (seconds 10) []),
   receivedFrom 2 (MulticastSource.arrivalAt DaemonThreads.exitDatagram (seconds 11)
    [.store { value := oneSocketSender.key }, .setDone]),
   receivedFrom 2 (MulticastSource.arrivalAt MulticastSource.forgedDatagram (seconds 12) [])]

/-- The datagrams of `replayTraffic` that come from the sender's endpoint. -/
def replayArrivals : List Arrival :=
  Family.inputs senderEndpoint
    (packets (start {} receiverConfig false).toMulticastReceiver replayTraffic)

theorem delivers_authentic_replayed :
    ∃ (d : DaemonThreads) (st : MulticastReceiverThread) (out : List (UdpEndpoint × Message)),
      (machine prefixedStreams tagAead).run (start {} receiverConfig false) replayTraffic =
        some (st, out) ∧
      Family.outputs senderEndpoint out = [shortMessage, shortMessage] ∧
      ∀ msg ∈ Family.outputs senderEndpoint out,
        msg ∈ DaemonThreads.acceptedIn d.mcastSenderCalls := by
  obtain ⟨pkt, d, hpkt, hd, -, -, hsent, -⟩ := DaemonThreads.exists_exited
  have hout : ((machine prefixedStreams tagAead).run (start {} receiverConfig false)
      replayTraffic).map (fun p => Family.outputs senderEndpoint p.2) =
        some [shortMessage, shortMessage] := by
    decide
  obtain ⟨⟨st, out⟩, hrun, hout⟩ := Option.map_eq_some_iff.mp hout
  have hkey : ∀ a ∈ replayArrivals,
      (MessagePacket.Accepted tagAead oneSocketSender.key a.datagram →
        a.datagram = DaemonThreads.exitDatagram) ∧
      (∀ k ∈ answers a.steps, k.value = [] ∨ k.value = oneSocketSender.key) ∧
      (¬ MessagePacket.Accepted tagAead oneSocketSender.key a.datagram →
        ¬ MessagePacket.Accepted tagAead oneSocketSender.key (MulticastSource.wiped a.datagram)) := by
    decide
  refine ⟨d, st, out, hrun, hout, ?_⟩
  refine (delivers_authentic prefixedStreams tagAead oneSocketSender.key oneSocketSender.nonces _ pkt
    hpkt DaemonThreads.allOpened d (hd.mono fun _ _ _ => trivial) {} receiverConfig false replayTraffic
    st out hrun senderEndpoint ?_ fun a ha => ⟨(hkey a ha).2.1, (hkey a ha).2.2⟩).1
  rw [hsent]
  exact fun a ha haccepted => ⟨_, List.mem_singleton_self _,
    List.mem_singleton.mpr ((hkey a ha).1 haccepted)⟩

/-- **Everything that is sent is handed on.**  Let the messages accepted be ones that can be decoded,
    and the endpoint never be silent for so long that its source is removed.  Of its datagrams, let
    those that the mclogd's key opens be one of each packet sent, in order; let the key queries about
    it bring this key or nothing, and a datagram that the key does not open not open once it is
    wiped; let none be delivered past the backlog, and let the backlog neither overflow nor get old.
    Then what the receiver has handed on from this endpoint and what its source still holds are
    exactly what has been put into the packets. -/
theorem delivers_all (io : StreamIO) (aead : Aead) (key : Str) (nonces : Nat → Nonce)
    (buf : Vector UInt8 1200) (pkt : MessagePacket)
    (hpkt : MessagePacket.ofBuf buf.toList = some pkt) (r : RestartResults)
    (d : DaemonThreads)
    (hd : Reachable (DaemonThreads.step io aead key nonces) (fun _ _ => True)
      (DaemonThreads.start pkt r) d)
    (hacceptable : ∀ msg ∈ DaemonThreads.acceptedIn d.mcastSenderCalls, msg.Acceptable)
    (calls : Mclogd.StartCalls) (cfg : Config) (acceptLocal : Bool)
    (es : List MulticastReceiverStep) (st : MulticastReceiverThread)
    (out : List (UdpEndpoint × Message))
    (hrun : (machine io aead).run (start calls cfg acceptLocal) es = some (st, out))
    (ep : UdpEndpoint) :
    let xs := packets (start calls cfg acceptLocal).toMulticastReceiver es
    let datagrams := (Family.inputs ep xs).map Arrival.datagram
    Family.StaysFresh MulticastSources.stale ep none xs →
    List.Forall₂ (· ∈ ·) (datagrams.filter fun d => MessagePacket.Accepted aead key d)
      d.mcastSender.sender.sent →
    (∀ a ∈ Family.inputs ep xs, MulticastSource.ForKey aead key a) →
    (MulticastSource.machine io aead).Meets (fun s a => s.NoOvertaking io aead a ∧ s.Keeps a) .init
      (Family.inputs ep xs) →
    ∃ batches, List.Forall₂ (DaemonThreads.Emitted io aead key) d.mcastSender.sender.sent batches ∧
      Family.outputs ep out ++
          MulticastSource.heldIn io aead key ((st.sources ep).getD .init).backlog =
        batches.flatten := by
  intro xs datagrams hsteady hreceived hkey hkeeps
  have hsound : DaemonThreads.Sound io aead key d := DaemonThreads.sound_of_reachable hpkt hd
  obtain ⟨batches, hbatches, haccepted⟩ := hsound.batches
  refine ⟨batches, hbatches, ?_⟩
  obtain ⟨s, hsource, hstate⟩ := steady_run io aead hsteady hrun
  have hsays := (MulticastSource.saysAll_of_run hkey hkeeps hsource).eq
  -- The endpoint's source is the single one that has had all its datagrams, if there were any.
  have hheld : ((st.sources ep).getD .init).backlog = s.backlog := by
    rw [hstate]
    split_ifs with hnone
    · rw [hnone] at hsource
      obtain ⟨rfl, -⟩ := Prod.mk.inj (Option.some.inj hsource)
      rfl
    · rfl
  rw [hheld, hsays]
  calc (Family.inputs ep xs).flatMap (fun a => MulticastSource.messagesUnder io aead key a.datagram)
    _ = datagrams.flatMap (MulticastSource.messagesUnder io aead key) :=
        (List.flatMap_map _ _ _).symm
    _ = _ := (flatMap_filter_accepted datagrams).symm
    _ = batches.flatten := messagesUnder_of_forall₂ hreceived hbatches fun msg hmsg =>
        hacceptable msg (haccepted.subset hmsg)

theorem delivers_all_exited :
    ∃ (d : DaemonThreads) (st : MulticastReceiverThread) (out : List (UdpEndpoint × Message))
      (batches : List (List Message)),
      (machine prefixedStreams tagAead).run (start {} receiverConfig false) exitTraffic =
        some (st, out) ∧
      List.Forall₂ (DaemonThreads.Emitted prefixedStreams tagAead oneSocketSender.key)
        d.mcastSender.sender.sent batches ∧
      Family.outputs senderEndpoint out ++ MulticastSource.heldIn prefixedStreams tagAead
          oneSocketSender.key ((st.sources senderEndpoint).getD .init).backlog = batches.flatten := by
  obtain ⟨pkt, d, hpkt, hd, -, -, hsent, haccepted, -⟩ := DaemonThreads.exists_exited
  obtain ⟨st, out, hrun, -⟩ := exitTraffic_run
  have hacceptable : ∀ msg ∈ DaemonThreads.acceptedIn d.mcastSenderCalls, msg.Acceptable := by
    rw [haccepted]
    decide
  obtain ⟨batches, hbatches, hhanded⟩ := delivers_all prefixedStreams tagAead oneSocketSender.key
    oneSocketSender.nonces _ pkt hpkt DaemonThreads.allOpened d (hd.mono fun _ _ _ => trivial)
    hacceptable {} receiverConfig false exitTraffic st out hrun senderEndpoint (by decide)
    (by rw [hsent]; exact exitArrivals_complete) exitArrivals_forKey (by decide)
  exact ⟨d, st, out, batches, hrun, hbatches, hhanded⟩

end MulticastReceiverThread

end Mclog
