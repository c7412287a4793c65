import Mathlib.Data.List.ReduceOption
import Mclog.Equiv.DeliveryOrder
import Mclog.MulticastReceiver

/-!
# What one sender's datagrams do to another's

`MulticastSources` is a family of multicast sources (`processPacket_eq_step`), and the receiver's
thread runs it on the datagrams it accepts (`run_eq`).  So for each endpoint the receiver is one
source, which is thrown away when a datagram from a new endpoint finds it 20 seconds old
(`sources_independent`).  An endpoint that keeps sending has a source of its own for good
(`source_of_steady`); and what is handed to the sinks as coming from an endpoint was read with a key
that a query to this endpoint has brought (`delivered_under_own_key`).
-/

namespace Mclog

open General

/-! ### The time of the last datagram -/

namespace MulticastSource

@[simp] theorem lastReceiveTime_queryStep (s : MulticastSource) (q : QueryStep) :
    (s.queryStep q).lastReceiveTime = s.lastReceiveTime := by
  cases q <;> unfold queryStep <;> split_ifs <;> rfl

@[simp] theorem lastReceiveTime_queryRuns (s : MulticastSource) (qs : List QueryStep) :
    (s.queryRuns qs).lastReceiveTime = s.lastReceiveTime := by
  induction qs generalizing s with
  | nil => rfl
  | cons q qs ih =>
    rw [queryRuns, List.foldl_cons, ← queryRuns, ih, lastReceiveTime_queryStep]

@[simp] theorem lastReceiveTime_startQuery (s : MulticastSource) :
    s.startQuery.lastReceiveTime = s.lastReceiveTime := by
  unfold startQuery
  split_ifs <;> rfl

@[simp] theorem lastReceiveTime_discardKey (s : MulticastSource) (a : Arrival) (data : Str) :
    (s.discardKey a data).lastReceiveTime = s.lastReceiveTime := by
  unfold discardKey
  dsimp only
  split_ifs <;> simp

theorem lastReceiveTime_processBacklog {io : StreamIO} {aead : Aead} {s s' : MulticastSource}
    {msgs : List Message} (h : s.processBacklog io aead = some (s', msgs)) :
    s'.lastReceiveTime = s.lastReceiveTime := by
  unfold processBacklog at h
  dsimp only at h
  split_ifs at h with hkey
  · simp only [Option.bind_eq_bind, Option.bind_eq_some_iff, Option.pure_def,
      Option.some.injEq] at h
    obtain ⟨_, _, heq⟩ := h
    obtain ⟨rfl, -⟩ := Prod.mk.inj heq
    rfl
  · obtain ⟨rfl, -⟩ := Prod.mk.inj (Option.some.inj h)
    rfl

/-- After a datagram, the last one received is this one. -/
theorem lastReceiveTime_machine {io : StreamIO} {aead : Aead} {s s' : MulticastSource} {a : Arrival}
    {msgs : List Message} (h : machine io aead s a = some (s', msgs)) :
    s'.lastReceiveTime = a.receiveTime := by
  have harrive : (s.arrive a).lastReceiveTime = a.receiveTime := by
    unfold arrive
    exact lastReceiveTime_queryRuns _ _
  obtain ⟨r, hr, heq⟩ := Option.map_eq_some_iff.mp h
  obtain ⟨rfl, rfl⟩ := Prod.mk.inj heq
  by_cases hkey : (s.arrive a).key.value = []
  · rw [processPacket_of_noKey io aead s a hkey] at hr
    obtain rfl := Option.some.inj hr
    show ((s.arrive a).bufferAndQuery a).lastReceiveTime = _
    unfold bufferAndQuery
    rw [lastReceiveTime_startQuery, lastReceiveTime_queryRuns]
    exact harrive
  · rw [processPacket_of_key io aead s a hkey] at hr
    obtain ⟨d, hd, ho⟩ := Option.bind_eq_some_iff.mp hr
    obtain ⟨o, -, rfl⟩ := Option.map_eq_some_iff.mp ho
    have hdrained : d.1.lastReceiveTime = a.receiveTime := by
      rw [lastReceiveTime_processBacklog hd, lastReceiveTime_queryRuns, harrive]
    split_ifs
    · exact hdrained
    · show (d.1.discardKey a o.2.2).lastReceiveTime = _
      rw [lastReceiveTime_discardKey, hdrained]

end MulticastSource

/-! ### What a source delivers -/

namespace MulticastSource

section

variable (io : StreamIO) (aead : Aead)

/-- What is read from a datagram that is opened. -/
theorem openPacket_msgs {mcastKey data : Str} {o : Int × List Message × Str}
    (h : openPacket io aead mcastKey data = some o) : o.2.1 = messagesUnder io aead mcastKey data := by
  rw [messagesUnder, h]

theorem not_accepted_of_openPacket {mcastKey data : Str} {o : Int × List Message × Str}
    (h : openPacket io aead mcastKey data = some o) (hrc : ¬ o.1 > 0) :
    ¬ MessagePacket.Accepted aead mcastKey data := by
  intro haccepted
  obtain ⟨rc, left, hopen, hpos⟩ := openPacket_of_accepted io aead haccepted
  obtain rfl := Option.some.inj (hopen.symm.trans h)
  exact hrc hpos

/-- What is left of a datagram that does not decrypt. -/
theorem openPacket_left {mcastKey data : Str} {o : Int × List Message × Str}
    (h : openPacket io aead mcastKey data = some o) (hrc : ¬ o.1 > 0) : o.2.2 = wiped data := by
  have hlong : k_minPacketLen < data.length := by
    by_contra hshort
    rw [(openPacket_eq_none_iff io aead mcastKey data).mpr (not_lt.mp hshort)] at h
    cases h
  rw [(openPacket_of_not_accepted io aead hlong (not_accepted_of_openPacket io aead h hrc)).1] at h
  obtain rfl := Option.some.inj h
  rfl

/-- The backlog's loop gives the messages of its entries. -/
theorem openBacklog_msgs {mcastKey : Str} {entries : List BacklogEntry} {msgs : List Message}
    (h : openBacklog io aead mcastKey entries = some msgs) :
    msgs = entries.flatMap fun e => messagesUnder io aead mcastKey e.data := by
  induction entries generalizing msgs with
  | nil =>
    obtain rfl := Option.some.inj h
    rfl
  | cons e entries ih =>
    unfold openBacklog at h
    simp only [Option.bind_eq_bind, Option.bind_eq_some_iff, Option.pure_def,
      Option.some.injEq] at h
    obtain ⟨o, ho, later, hlater, rfl⟩ := h
    rw [List.flatMap_cons, ih hlater, openPacket_msgs io aead ho]

/-- What `ProcessBacklog` does, by whether there is a key. -/
theorem processBacklog_cases {s s' : MulticastSource} {msgs : List Message}
    (h : s.processBacklog io aead = some (s', msgs)) :
    (s.key.value = [] ∧ s' = s ∧ msgs = []) ∨
      s.key.value ≠ [] ∧ s' = { s with backlog := .empty } ∧
        msgs = s.backlog.entries.flatMap fun e => messagesUnder io aead s.key.value e.data := by
  unfold processBacklog at h
  dsimp only at h
  split_ifs at h with hkey
  · right
    simp only [Option.bind_eq_bind, Option.bind_eq_some_iff, Option.pure_def,
      Option.some.injEq] at h
    obtain ⟨opened, hopened, heq⟩ := h
    obtain ⟨rfl, rfl⟩ := Prod.mk.inj heq
    exact ⟨by simpa using hkey, rfl, openBacklog_msgs io aead hopened⟩
  · left
    obtain ⟨rfl, rfl⟩ := Prod.mk.inj (Option.some.inj h)
    exact ⟨by simpa using hkey, rfl, rfl⟩

/-- What is read of a datagram: the datagram, or what is left of it when one of the keys has not
    opened it. -/
def LeftOf (keys : List Str) (d data : Str) : Prop :=
  data = d ∨ data = wiped d ∧ ∃ k ∈ keys, ¬ MessagePacket.Accepted aead k d

/-- A message that one of some keys reads from a datagram, or from what is left of it. -/
def ReadFrom (keys : List Str) (datagrams : List Str) (msg : Message) : Prop :=
  ∃ k ∈ keys, ∃ d ∈ datagrams, ∃ data, LeftOf aead keys d data ∧ msg ∈ messagesUnder io aead k data

/-- The key a source has and the datagrams in its backlog are among those that came to it. -/
structure Supplied (keys datagrams : List Str) (s : MulticastSource) : Prop where
  key : s.key.value = [] ∨ s.key.value ∈ keys
  backlog : ∀ e ∈ s.backlog.entries, ∃ d ∈ datagrams, LeftOf aead keys d e.data

variable {io aead} {keys datagrams : List Str}

theorem LeftOf.mono {d data : Str} (h : LeftOf aead keys d data) {keys' : List Str}
    (hkeys : keys ⊆ keys') : LeftOf aead keys' d data :=
  h.imp_right fun ⟨hdata, k, hk, hrejected⟩ => ⟨hdata, k, hkeys hk, hrejected⟩

/-- A datagram that came, or what is left of it, waits. -/
theorem supplied_pushBack {b : Backlog}
    (h : ∀ e ∈ b.entries, ∃ d ∈ datagrams, LeftOf aead keys d e.data) {e : BacklogEntry}
    (he : ∃ d ∈ datagrams, LeftOf aead keys d e.data) :
    ∀ e' ∈ (b.pushBack e).entries, ∃ d ∈ datagrams, LeftOf aead keys d e'.data := by
  intro e' he'
  unfold Backlog.pushBack at he'
  split_ifs at he' with hroom
  · rcases List.mem_append.mp he' with hold | hnew
    · exact h e' hold
    · rw [List.mem_singleton.mp hnew]
      exact he
  · exact h e' he'

theorem supplied_init : Supplied aead keys datagrams init :=
  ⟨Or.inl rfl, fun e he => by simp [init, Backlog.empty] at he⟩

theorem Supplied.mono {s : MulticastSource} (h : Supplied aead keys datagrams s)
    {keys' datagrams' : List Str} (hkeys : keys ⊆ keys') (hdatagrams : datagrams ⊆ datagrams') :
    Supplied aead keys' datagrams' s :=
  ⟨h.key.imp_right fun hk => hkeys hk, fun e he =>
    let ⟨d, hd, hdata⟩ := h.backlog e he
    ⟨d, hdatagrams hd, hdata.mono hkeys⟩⟩

theorem ReadFrom.mono {msg : Message} (h : ReadFrom io aead keys datagrams msg)
    {keys' datagrams' : List Str} (hkeys : keys ⊆ keys') (hdatagrams : datagrams ⊆ datagrams') :
    ReadFrom io aead keys' datagrams' msg := by
  obtain ⟨k, hk, d, hd, data, hdata, hmsg⟩ := h
  exact ⟨k, hkeys hk, d, hdatagrams hd, data, hdata.mono hkeys, hmsg⟩

/-- **One call** delivers what the keys that came to the source read from datagrams that came to it. -/
theorem processPacket_supplied {s s' : MulticastSource} {a : Arrival} {msgs : List Message}
    (hs : Supplied aead keys datagrams s)
    (hstored : ∀ key ∈ answers a.steps, key.value = [] ∨ key.value ∈ keys)
    (ha : a.datagram ∈ datagrams) (h : machine io aead s a = some (s', msgs)) :
    Supplied aead keys datagrams s' ∧ ∀ msg ∈ msgs, ReadFrom io aead keys datagrams msg := by
  have hkey : ∀ (s : MulticastSource) (qs : List QueryStep),
      (∀ key ∈ answers qs, key ∈ answers a.steps) → (s.key.value = [] ∨ s.key.value ∈ keys) →
      (s.queryRuns qs).key.value = [] ∨ (s.queryRuns qs).key.value ∈ keys :=
    fun s qs hqs hs => key_queryRuns_of (P := fun k => k.value = [] ∨ k.value ∈ keys) hs
      fun key hk => hstored key (hqs key hk)
  have harrive : (s.arrive a).key.value = [] ∨ (s.arrive a).key.value ∈ keys :=
    hkey _ a.beforeKey (fun key hk => by simp [hk]) hs.key
  obtain ⟨r, hr, heq⟩ := Option.map_eq_some_iff.mp h
  obtain ⟨rfl, rfl⟩ := Prod.mk.inj heq
  by_cases hnil : (s.arrive a).key.value = []
  · rw [processPacket_of_noKey io aead s a hnil] at hr
    obtain rfl := Option.some.inj hr
    have hbuffered : ((s.arrive a).bufferAndQuery a).key.value = [] ∨
        ((s.arrive a).bufferAndQuery a).key.value ∈ keys := by
      unfold bufferAndQuery
      rw [key_startQuery]
      exact hkey _ a.beforeStart (fun key hk => by simp [hk]) harrive
    refine ⟨⟨hbuffered, fun e he => ?_⟩, by simp⟩
    · have hwaits : e ∈ ((s.arrive a).bufferAndQuery a).backlog.entries :=
        (List.dropWhile_sublist _).subset he
      simp only [bufferAndQuery, backlog_startQuery, backlog_queryRuns, backlog_arrive] at hwaits
      exact supplied_pushBack hs.backlog ⟨_, ha, Or.inl rfl⟩ e hwaits
  · rw [processPacket_of_key io aead s a hnil] at hr
    obtain ⟨⟨s₁, waited⟩, hd, hopen⟩ := Option.bind_eq_some_iff.mp hr
    obtain ⟨o, ho, rfl⟩ := Option.map_eq_some_iff.mp hopen
    have hcurrent := hkey (s.arrive a) a.beforeBacklog (fun key hk => by simp [hk]) harrive
    have hopened : ∀ msg ∈ o.2.1, ReadFrom io aead keys datagrams msg := by
      rw [openPacket_msgs io aead ho]
      exact fun msg hmsg => ⟨_, harrive.resolve_left hnil, _, ha, _, Or.inl rfl, hmsg⟩
    -- Draining the backlog delivers what the current key reads from what came.
    have hdrained : Supplied aead keys datagrams s₁ ∧
        ∀ msg ∈ waited, ReadFrom io aead keys datagrams msg := by
      rcases processBacklog_cases io aead hd with ⟨-, rfl, rfl⟩ | ⟨hthere, rfl, rfl⟩
      · refine ⟨⟨hcurrent, ?_⟩, by simp⟩
        rw [backlog_queryRuns, backlog_arrive]
        exact hs.backlog
      · refine ⟨⟨hcurrent, fun e he => by simp [Backlog.empty] at he⟩, fun msg hmsg => ?_⟩
        obtain ⟨e, he, hmsg⟩ := List.mem_flatMap.mp hmsg
        rw [backlog_queryRuns, backlog_arrive] at he
        obtain ⟨d, hd, hdata⟩ := hs.backlog e he
        exact ⟨_, hcurrent.resolve_left hthere, d, hd, _, hdata, hmsg⟩
    split_ifs with hrc
    · refine ⟨⟨hdrained.1.key, fun e he => hdrained.1.backlog e ?_⟩, fun msg hmsg => ?_⟩
      · exact (List.dropWhile_sublist _).subset he
      · exact (List.mem_append.mp hmsg).elim (hdrained.2 msg) (hopened msg)
    · refine ⟨⟨?_, fun e he => ?_⟩, hdrained.2⟩
      · exact key_discardKey_of (P := fun k => k.value = [] ∨ k.value ∈ keys) (Or.inl rfl) hstored
      · have hwaits : e ∈ (s₁.discardKey a o.2.2).backlog.entries :=
          (List.dropWhile_sublist _).subset he
        rw [backlog_discardKey] at hwaits
        exact supplied_pushBack hdrained.1.backlog
          ⟨_, ha, Or.inr ⟨openPacket_left io aead ho hrc, _, harrive.resolve_left hnil,
            not_accepted_of_openPacket io aead ho hrc⟩⟩ e hwaits

theorem storedKeys_append (as as' : List Arrival) :
    storedKeys (as ++ as') = storedKeys as ++ storedKeys as' := by
  simp [storedKeys]

/-- What a source that is replaced now and then delivers in a run. -/
theorem run_slot_supplied (es : List (Option Arrival)) {st : Option MulticastSource}
    {msgs : List Message}
    (h : ((machine io aead).slot init).run none es = some (st, msgs)) :
    ∀ msg ∈ msgs, ReadFrom io aead (storedKeys es.reduceOption)
      (es.reduceOption.map Arrival.datagram) msg := by
  have hstep : ∀ (before : List (Option Arrival)) (emitted : List Message)
      (s : Option MulticastSource) (e : Option Arrival) (s' : Option MulticastSource)
      (out : List Message),
      ((∀ src ∈ s, Supplied aead (storedKeys before.reduceOption)
          (before.reduceOption.map Arrival.datagram) src) ∧
        ∀ msg ∈ emitted, ReadFrom io aead (storedKeys before.reduceOption)
          (before.reduceOption.map Arrival.datagram) msg) → True →
      (machine io aead).slot init s e = some (s', out) →
      (∀ src ∈ s', Supplied aead (storedKeys (before ++ [e]).reduceOption)
          ((before ++ [e]).reduceOption.map Arrival.datagram) src) ∧
        ∀ msg ∈ emitted ++ out, ReadFrom io aead (storedKeys (before ++ [e]).reduceOption)
          ((before ++ [e]).reduceOption.map Arrival.datagram) msg := by
    intro before emitted s e s' out hR _ hstep
    cases e with
    | none =>
      obtain ⟨rfl, rfl⟩ := Prod.mk.inj (Option.some.inj hstep)
      simpa [List.reduceOption_append] using hR.2
    | some a =>
      obtain ⟨⟨s₁, msgs₁⟩, hmachine, heq⟩ := Option.map_eq_some_iff.mp hstep
      obtain ⟨rfl, rfl⟩ := Prod.mk.inj heq
      have hsplit : (before ++ [some a]).reduceOption = before.reduceOption ++ [a] := by
        simp [List.reduceOption_append]
      rw [hsplit, storedKeys_append, List.map_append]
      -- What could be read before this call still can be.
      have hkeys : storedKeys before.reduceOption ⊆
          storedKeys before.reduceOption ++ storedKeys [a] := List.subset_append_left _ _
      have hdatagrams : before.reduceOption.map Arrival.datagram ⊆
          before.reduceOption.map Arrival.datagram ++ [a].map Arrival.datagram :=
        List.subset_append_left _ _
      have hsource : Supplied aead (storedKeys before.reduceOption ++ storedKeys [a])
          (before.reduceOption.map Arrival.datagram ++ [a].map Arrival.datagram)
          (s.getD init) := by
        cases s with
        | none => exact supplied_init
        | some src => exact (hR.1 src rfl).mono hkeys hdatagrams
      have hstored : ∀ key ∈ answers a.steps,
          key.value = [] ∨ key.value ∈ storedKeys before.reduceOption ++ storedKeys [a] := by
        intro key hkey
        by_cases hnil : key.value = []
        · exact Or.inl hnil
        · right
          apply List.mem_append_right
          simp only [storedKeys, List.flatMap_singleton, List.mem_filter, List.mem_map]
          exact ⟨⟨key, hkey, rfl⟩, by simpa using hnil⟩
      obtain ⟨hsupplied, hread⟩ := processPacket_supplied hsource hstored (by simp) hmachine
      refine ⟨fun src hsrc => ?_, fun msg hmsg => ?_⟩
      · obtain rfl := Option.some.inj hsrc
        exact hsupplied
      · rcases List.mem_append.mp hmsg with hold | hnew
        · exact (hR.2 msg hold).mono hkeys hdatagrams
        · exact hread msg hnew
  have := Machine.history_of_run _ (C := fun _ _ => True) hstep es [] [] none st msgs
    ⟨by simp, by simp⟩ (Machine.meets_of_forall _ none es fun _ _ => trivial) h
  simpa using this.2

end

end MulticastSource

/-! ### The sources as a family -/

/-- A datagram that reaches the sources: the endpoint it is from, its arrival, and the clock when
    `ClearOld` reads it. -/
abbrev SourcePacket := UdpEndpoint × Arrival × Int

namespace MulticastSources

section

variable (io : StreamIO) (aead : Aead)

/-- The family that the sources are. -/
def family : Family MulticastSource Arrival Message Int where
  machine := MulticastSource.machine io aead
  init := .init
  expired := expired

/-- A datagram is 20 seconds old. -/
def stale (now : Int) (a : Arrival) : Bool := a.receiveTime < now - seconds 20

/-- **The sources are a family.** -/
theorem processPacket_eq_step (sources : MulticastSources) (x : SourcePacket) :
    sources.processPacket io aead x.1 x.2.1 x.2.2 = (family io aead).step sources x := by
  have hmachine : ∀ s : MulticastSource, (family io aead).machine s x.2.1 =
      (s.processPacket io aead x.2.1).map fun r => (r.2.1, r.2.2) := fun _ => rfl
  unfold processPacket Family.step
  cases hsrc : sources x.1 with
  | some src =>
    rw [Option.getD_some, hmachine, Option.map_map]
    rfl
  | none =>
    rw [Option.getD_none]
    show _ = Option.map _ ((family io aead).machine MulticastSource.init x.2.1)
    rw [hmachine, Option.map_map]
    rfl

/-- The last datagram of a source decides whether it has expired. -/
theorem family_decidedBy : (family io aead).DecidedBy stale := by
  intro s a s' out h now
  show expired now s' = stale now a
  unfold expired stale
  rw [MulticastSource.lastReceiveTime_machine h]

end

end MulticastSources

/-! ### What reaches the sources -/

namespace MulticastReceiverThread

open MulticastSources

/-- The datagram that a branch of `Run` gives to the sources, if it does. -/
def taken {α : Type} [DecidableEq α] (mr : Mclogd.MulticastReceiver) (fd : Bool) (intfAddr : α)
    (endPoint : α → UInt16 → UdpEndpoint) (received : Option (ReceivedFrom α)) : List SourcePacket :=
  match received with
  | some r =>
    if fd && 0 < r.recvrc && (mr.acceptLocal || r.fromAddr ≠ intfAddr) then
      [(endPoint r.fromAddr r.port, r.arrived, r.clearTime)]
    else
      []
  | none => []

/-- The receiver without its sources after a step, and the datagrams it gives to them. -/
def control (mr : Mclogd.MulticastReceiver) :
    MulticastReceiverStep → Mclogd.MulticastReceiver × List SourcePacket
  | .select ready =>
    if mr.thread.running then
      if ready.stop then
        ({ mr with thread := mr.thread.stop }, [])
      else
        (mr, taken mr mr.fd mr.config.mcast.intfAddr .v4 ready.v4 ++
          taken mr mr.fd6 mr.config.mcast.intfAddr6 .v6 ready.v6)
    else
      (mr, [])
  | .close => (mr.close, [])
  | .restart calls cfg => ((mr.restart calls cfg).2, [])

/-- The receiver without its sources after some steps. -/
def controlAfter (mr : Mclogd.MulticastReceiver) :
    List MulticastReceiverStep → Mclogd.MulticastReceiver
  | [] => mr
  | e :: es => controlAfter (control mr e).1 es

/-- The datagrams that reach the sources in some steps. -/
def packets (mr : Mclogd.MulticastReceiver) : List MulticastReceiverStep → List SourcePacket
  | [] => []
  | e :: es => (control mr e).2 ++ packets (control mr e).1 es

section

variable (io : StreamIO) (aead : Aead)

/-- A branch gives its datagram to the sources. -/
theorem branch_eq {α : Type} [DecidableEq α] (fd : Bool) (intfAddr : α)
    (endPoint : α → UInt16 → UdpEndpoint) (received : Option (ReceivedFrom α))
    (mr : MulticastReceiverThread) :
    mr.branch io aead fd intfAddr endPoint received =
      ((family io aead).step.run mr.sources
        (taken mr.toMulticastReceiver fd intfAddr endPoint received)).map
          fun p => ({ mr with sources := p.1 }, p.2) := by
  unfold branch taken
  cases received with
  | none => rfl
  | some r =>
    dsimp only
    split_ifs with htaken
    · rw [processPacket_eq_step io aead mr.sources (endPoint r.fromAddr r.port, r.arrived,
        r.clearTime), Machine.run]
      cases (family io aead).step mr.sources (endPoint r.fromAddr r.port, r.arrived, r.clearTime) with
      | none => rfl
      | some p => simp
    · rfl

/-- A step gives its datagrams to the sources. -/
theorem machine_eq (mr : MulticastReceiverThread) (e : MulticastReceiverStep) :
    machine io aead mr e =
      ((family io aead).step.run mr.sources (control mr.toMulticastReceiver e).2).map
        fun p => (⟨(control mr.toMulticastReceiver e).1, p.1⟩, p.2) := by
  cases e with
  | close => rfl
  | restart calls cfg => rfl
  | select ready =>
    unfold machine control
    dsimp only
    split_ifs with hrun hstop
    · unfold pass
      rw [if_pos hstop]
      rfl
    · unfold pass ipv4Branch ipv6Branch
      rw [if_neg hstop, branch_eq, Machine.run_append]
      cases (family io aead).step.run mr.sources
        (taken mr.toMulticastReceiver mr.fd mr.config.mcast.intfAddr .v4 ready.v4) with
      | none => rfl
      | some p =>
        show Option.bind (branch io aead mr.fd6 mr.config.mcast.intfAddr6 .v6 ready.v6
          { mr with sources := p.1 }) _ = _
        rw [branch_eq, Option.bind_some]
        show Option.bind (Option.map _ ((family io aead).step.run p.1
          (taken mr.toMulticastReceiver mr.fd6 mr.config.mcast.intfAddr6 .v6 ready.v6))) _ = _
        cases (family io aead).step.run p.1
          (taken mr.toMulticastReceiver mr.fd6 mr.config.mcast.intfAddr6 .v6 ready.v6) with
        | none => rfl
        | some q => rfl
    · rfl

/-- **The receiver runs the sources** on the datagrams it accepts. -/
theorem run_eq (es : List MulticastReceiverStep) (mr : MulticastReceiverThread) :
    (machine io aead).run mr es =
      ((family io aead).step.run mr.sources (packets mr.toMulticastReceiver es)).map
        fun p => (⟨controlAfter mr.toMulticastReceiver es, p.1⟩, p.2) := by
  induction es generalizing mr with
  | nil => rfl
  | cons e es ih =>
    rw [Machine.run, machine_eq, packets, Machine.run_append]
    cases (family io aead).step.run mr.sources (control mr.toMulticastReceiver e).2 with
    | none => rfl
    | some p =>
      show Option.map _ ((machine io aead).run ⟨(control mr.toMulticastReceiver e).1, p.1⟩ es) = _
      rw [ih, Option.bind_some]
      show Option.map _ (Option.map _ ((family io aead).step.run p.1 _)) = _
      cases (family io aead).step.run p.1
        (packets (control mr.toMulticastReceiver e).1 es) with
      | none => rfl
      | some q => rfl

/-- What happens to the source of an endpoint: its datagrams, and `none` when it is thrown away. -/
def sourceEvents (srcEndpoint : UdpEndpoint) (xs : List SourcePacket) : List (Option Arrival) :=
  Family.events stale srcEndpoint (fun _ => none) xs

/-- What each endpoint has in a run that goes through. -/
theorem source_run {calls : Mclogd.StartCalls} {cfg : Config} {acceptLocal : Bool}
    {es : List MulticastReceiverStep} {mr : MulticastReceiverThread}
    {out : List (UdpEndpoint × Message)}
    (h : (machine io aead).run (start calls cfg acceptLocal) es = some (mr, out))
    (ep : UdpEndpoint) :
    ((MulticastSource.machine io aead).slot .init).run none
        (sourceEvents ep (packets (start calls cfg acceptLocal).toMulticastReceiver es)) =
      some (mr.sources ep, Family.outputs ep out) := by
  have hempty : (family io aead).Tracks stale (start calls cfg acceptLocal).sources fun _ => none :=
    Family.tracks_empty
  rw [run_eq] at h
  obtain ⟨p, hp, heq⟩ := Option.map_eq_some_iff.mp h
  obtain ⟨rfl, rfl⟩ := Prod.mk.inj heq
  exact Family.project_run (family_decidedBy io aead) _ hempty hp ep

/-- **Sources are independent.**  In every run of a receiver, with restarts and with any traffic, each
    endpoint has what a single source gives that is fed the endpoint's datagrams and now and then
    replaced by a new one; the run aborts exactly when one of these does. -/
theorem sources_independent (calls : Mclogd.StartCalls) (cfg : Config) (acceptLocal : Bool)
    (es : List MulticastReceiverStep) :
    let xs := packets (start calls cfg acceptLocal).toMulticastReceiver es
    let source := (MulticastSource.machine io aead).slot .init
    ((machine io aead).run (start calls cfg acceptLocal) es = none ↔
      ∃ ep, source.run none (sourceEvents ep xs) = none) ∧
    ∀ mr out, (machine io aead).run (start calls cfg acceptLocal) es = some (mr, out) →
      ∀ ep, source.run none (sourceEvents ep xs) = some (mr.sources ep, Family.outputs ep out) := by
  intro xs source
  refine ⟨?_, fun mr out hrun ep => source_run io aead hrun ep⟩
  have hempty : (family io aead).Tracks stale (start calls cfg acceptLocal).sources fun _ => none :=
    Family.tracks_empty
  rw [run_eq, Option.map_eq_none_iff, Family.run_eq_none_iff (family_decidedBy io aead) xs hempty]
  rfl

/-- What an endpoint has whose source is never thrown away. -/
theorem steady_run {calls : Mclogd.StartCalls} {cfg : Config} {acceptLocal : Bool}
    {es : List MulticastReceiverStep} {mr : MulticastReceiverThread}
    {out : List (UdpEndpoint × Message)} {ep : UdpEndpoint}
    (hsteady : Family.StaysFresh stale ep none
      (packets (start calls cfg acceptLocal).toMulticastReceiver es))
    (h : (machine io aead).run (start calls cfg acceptLocal) es = some (mr, out)) :
    ∃ s, (MulticastSource.machine io aead).run .init
          (Family.inputs ep (packets (start calls cfg acceptLocal).toMulticastReceiver es)) =
        some (s, Family.outputs ep out) ∧
      mr.sources ep =
        if Family.inputs ep (packets (start calls cfg acceptLocal).toMulticastReceiver es) = [] then
          none
        else some s := by
  have hsource := source_run io aead h ep
  rw [sourceEvents, Family.events_of_staysFresh ep _ _ hsteady, Machine.run_slot_map_some] at hsource
  obtain ⟨p, hp, heq⟩ := Option.map_eq_some_iff.mp hsource
  obtain ⟨hstate, hout⟩ := Prod.mk.inj heq
  exact ⟨p.1, by rw [← hout]; exact hp, hstate.symm⟩

/-- **A steady sender has a source for good.**  If no datagram from anywhere finds the endpoint's last
    datagram more than 20 seconds old, then what the receiver hands on from this endpoint is what one
    source gives that is fed the endpoint's datagrams, whatever else the receiver gets. -/
theorem source_of_steady (calls : Mclogd.StartCalls) (cfg : Config) (acceptLocal : Bool)
    (es : List MulticastReceiverStep) (ep : UdpEndpoint) :
    let xs := packets (start calls cfg acceptLocal).toMulticastReceiver es
    Family.StaysFresh stale ep none xs → ∀ mr out,
      (machine io aead).run (start calls cfg acceptLocal) es = some (mr, out) →
      ∃ s, (MulticastSource.machine io aead).run .init (Family.inputs ep xs) =
          some (s, Family.outputs ep out) ∧
        mr.sources ep = if Family.inputs ep xs = [] then none else some s :=
  fun hsteady _ _ hrun => steady_run io aead hsteady hrun

end

/-! ### Where a message comes from -/

/-- An endpoint with the address of the interface that multicast is sent on. -/
def IsLocal (cfg : Config) : UdpEndpoint → Prop
  | .v4 addr _ => addr = cfg.mcast.intfAddr
  | .v6 addr _ => addr = cfg.mcast.intfAddr6

theorem acceptLocal_control (mr : Mclogd.MulticastReceiver) (e : MulticastReceiverStep) :
    (control mr e).1.acceptLocal = mr.acceptLocal := by
  cases e with
  | select ready =>
    unfold control
    dsimp only
    split_ifs <;> rfl
  | close => rfl
  | restart calls cfg =>
    show ((mr.restart calls cfg).2).acceptLocal = _
    unfold Mclogd.MulticastReceiver.restart Mclogd.MulticastReceiver.open
    dsimp only
    split_ifs <;> rfl

theorem acceptLocal_controlAfter (mr : Mclogd.MulticastReceiver) (es : List MulticastReceiverStep) :
    (controlAfter mr es).acceptLocal = mr.acceptLocal := by
  induction es generalizing mr with
  | nil => rfl
  | cons e es ih => rw [controlAfter, ih, acceptLocal_control]

/-- A datagram that reaches the sources does so in one of the steps. -/
theorem mem_packets {mr : Mclogd.MulticastReceiver} {es : List MulticastReceiverStep}
    {x : SourcePacket} (hx : x ∈ packets mr es) :
    ∃ before e after, es = before ++ e :: after ∧ x ∈ (control (controlAfter mr before) e).2 := by
  induction es generalizing mr with
  | nil => cases hx
  | cons e es ih =>
    rcases List.mem_append.mp hx with hnow | hlater
    · exact ⟨[], e, es, rfl, hnow⟩
    · obtain ⟨before, e', after, rfl, hx'⟩ := ih hlater
      exact ⟨e :: before, e', after, rfl, hx'⟩

theorem foreign_of_mem_taken {α : Type} [DecidableEq α] {mr : Mclogd.MulticastReceiver}
    (hlocal : mr.acceptLocal = false) {fd : Bool} {intfAddr : α} {endPoint : α → UInt16 → UdpEndpoint}
    {received : Option (ReceivedFrom α)} {x : SourcePacket}
    (hx : x ∈ taken mr fd intfAddr endPoint received) :
    ∃ addr port, x.1 = endPoint addr port ∧ addr ≠ intfAddr := by
  cases received with
  | none => cases hx
  | some r =>
    simp only [taken, hlocal, Bool.false_or] at hx
    split_ifs at hx with htaken
    · rw [List.mem_singleton.mp hx]
      simp only [Bool.and_eq_true, decide_eq_true_eq] at htaken
      exact ⟨r.fromAddr, r.port, rfl, htaken.2⟩
    · cases hx

/-- A receiver that does not accept local datagrams takes none with the interface's address. -/
theorem not_isLocal_of_mem_control {mr : Mclogd.MulticastReceiver} (hlocal : mr.acceptLocal = false)
    {e : MulticastReceiverStep} {x : SourcePacket} (hx : x ∈ (control mr e).2) :
    ¬ IsLocal mr.config x.1 := by
  cases e with
  | close => cases hx
  | restart calls cfg => cases hx
  | select ready =>
    unfold control at hx
    dsimp only at hx
    split_ifs at hx with hrun hstop
    · cases hx
    · rcases List.mem_append.mp hx with hx | hx
      · obtain ⟨addr, port, hep, hforeign⟩ := foreign_of_mem_taken hlocal hx
        rw [hep]
        exact hforeign
      · obtain ⟨addr, port, hep, hforeign⟩ := foreign_of_mem_taken hlocal hx
        rw [hep]
        exact hforeign
    · cases hx

/-- **Nothing foreign.**  In every run of a receiver that does not accept local datagrams, each message
    handed on as coming from an endpoint was read, with a key that a query to this endpoint brought,
    from a datagram of this endpoint, or from what is left of one that such a key has not opened; and
    the datagram was not from the address of the interface as configured when it came. -/
theorem delivered_under_own_key (io : StreamIO) (aead : Aead) (calls : Mclogd.StartCalls)
    (cfg : Config) (es : List MulticastReceiverStep) :
    let mr := (start calls cfg false).toMulticastReceiver
    ∀ st out, (machine io aead).run (start calls cfg false) es = some (st, out) →
      ∀ ep msg, (ep, msg) ∈ out → ∃ before e after a clearTime, es = before ++ e :: after ∧
        (ep, a, clearTime) ∈ (control (controlAfter mr before) e).2 ∧
        ¬ IsLocal (controlAfter mr before).config ep ∧
        ∃ k ∈ MulticastSource.storedKeys (Family.inputs ep (packets mr es)), ∃ data,
          MulticastSource.LeftOf aead (MulticastSource.storedKeys (Family.inputs ep (packets mr es)))
            a.datagram data ∧ msg ∈ MulticastSource.messagesUnder io aead k data := by
  intro mr st out hrun ep msg hmem
  have hsource := source_run io aead hrun ep
  have hmsg : msg ∈ Family.outputs ep out :=
    List.mem_map.mpr ⟨(ep, msg), List.mem_filter.mpr ⟨hmem, by simp⟩, rfl⟩
  have hsupplied := MulticastSource.run_slot_supplied _ hsource msg hmsg
  rw [sourceEvents, Family.reduceOption_events] at hsupplied
  obtain ⟨k, hk, d, hd, data, hdata, hread⟩ := hsupplied
  obtain ⟨a, ha, rfl⟩ := List.mem_map.mp hd
  obtain ⟨x, hx, rfl⟩ := List.mem_map.mp ha
  obtain ⟨hx, hep⟩ := List.mem_filter.mp hx
  obtain ⟨before, e, after, hes, hcontrol⟩ := mem_packets hx
  have hlocal : (controlAfter mr before).acceptLocal = false := by
    rw [acceptLocal_controlAfter]
    show ((({} : Mclogd.MulticastReceiver).open calls cfg false).2).acceptLocal = false
    unfold Mclogd.MulticastReceiver.open
    dsimp only
    split_ifs <;> rfl
  have hforeign := not_isLocal_of_mem_control hlocal hcontrol
  obtain rfl : x.1 = ep := by simpa using hep
  exact ⟨before, e, after, x.2.1, x.2.2, hes, hcontrol, hforeign, k, hk, data, hdata, hread⟩

/-! ### A sender, a stranger and the host itself -/

/-- A configuration with an interface for multicast. -/
def receiverConfig : Config := { mcast := { intfAddr := 1 } }

/-- The endpoint of the sender. -/
def senderEndpoint : UdpEndpoint := .v4 2 3737

/-- `select` returns with a datagram on the IPv4 socket. -/
def receivedFrom (fromAddr : Ipv4Address) (a : Arrival) : MulticastReceiverStep :=
  .select { v4 := some { fromAddr, port := 3737, arrival := a, clearTime := a.clearTime } }

/-- The sender's datagrams, and between them one of a stranger and one of the host itself. -/
def mixedTraffic : List MulticastReceiverStep :=
  [receivedFrom 2 (MulticastSource.arrivalAt MulticastSource.senderDatagram (seconds 10) []),
   receivedFrom 3 (MulticastSource.arrivalAt MulticastSource.forgedDatagram (seconds 11) []),
   receivedFrom 2 (MulticastSource.arrivalAt MulticastSource.senderDatagram (seconds 11)
     [.store { value := MulticastSource.senderKey }, .setDone]),
   .restart {} receiverConfig,
   receivedFrom 1 (MulticastSource.arrivalAt MulticastSource.senderDatagram (seconds 12) []),
   receivedFrom 2 (MulticastSource.arrivalAt MulticastSource.senderDatagram (seconds 20) [])]

theorem mixedTraffic_goes_through :
    ((machine prefixedStreams tagAead).run (start {} receiverConfig false) mixedTraffic).isSome := by
  decide

theorem sources_independent_mixed :
    ∃ mr out, (machine prefixedStreams tagAead).run (start {} receiverConfig false) mixedTraffic =
        some (mr, out) ∧
      ((MulticastSource.machine prefixedStreams tagAead).slot .init).run none
          (sourceEvents senderEndpoint
            (packets (start {} receiverConfig false).toMulticastReceiver mixedTraffic)) =
        some (mr.sources senderEndpoint, Family.outputs senderEndpoint out) := by
  obtain ⟨⟨mr, out⟩, hrun⟩ := Option.isSome_iff_exists.mp mixedTraffic_goes_through
  exact ⟨mr, out, hrun, (sources_independent prefixedStreams tagAead {} receiverConfig false
    mixedTraffic).2 mr out hrun senderEndpoint⟩

theorem source_of_steady_mixed :
    ∃ mr out s, (machine prefixedStreams tagAead).run (start {} receiverConfig false) mixedTraffic =
        some (mr, out) ∧
      (MulticastSource.machine prefixedStreams tagAead).run .init (Family.inputs senderEndpoint
          (packets (start {} receiverConfig false).toMulticastReceiver mixedTraffic)) =
        some (s, Family.outputs senderEndpoint out) := by
  obtain ⟨⟨mr, out⟩, hrun⟩ := Option.isSome_iff_exists.mp mixedTraffic_goes_through
  obtain ⟨s, hs, -⟩ := source_of_steady prefixedStreams tagAead {} receiverConfig false mixedTraffic
    senderEndpoint (by decide) mr out hrun
  exact ⟨mr, out, s, hrun, hs⟩

theorem delivered_under_own_key_mixed :
    ∃ st out, (machine prefixedStreams tagAead).run (start {} receiverConfig false) mixedTraffic =
        some (st, out) ∧ (senderEndpoint, MulticastSource.senderMessage) ∈ out ∧
      ∃ before e after a clearTime, mixedTraffic = before ++ e :: after ∧
        (senderEndpoint, a, clearTime) ∈ (control (controlAfter
          (start {} receiverConfig false).toMulticastReceiver before) e).2 := by
  obtain ⟨⟨st, out⟩, hrun⟩ := Option.isSome_iff_exists.mp mixedTraffic_goes_through
  have hout : ((machine prefixedStreams tagAead).run (start {} receiverConfig false)
      mixedTraffic).any fun p => (senderEndpoint, MulticastSource.senderMessage) ∈ p.2 := by
    decide
  rw [hrun, Option.any_some, decide_eq_true_eq] at hout
  obtain ⟨before, e, after, a, clearTime, hes, hcontrol, -⟩ := delivered_under_own_key
    prefixedStreams tagAead {} receiverConfig mixedTraffic st out hrun senderEndpoint
    MulticastSource.senderMessage hout
  exact ⟨st, out, hrun, hout, before, e, after, a, clearTime, hes, hcontrol⟩

end MulticastReceiverThread

end Mclog
