import Mclog.Equiv.DaemonOrder

/-!
# What mclogd does with the messages it reads

In every run, with restarts at any time: what is multicast comes from the daemon's own host
(`multicasts_own_host`), the file logger accounts for all it accepts (`fileLogger_accounts`), and when
mclogd exits all it has read from its own host was offered to the file logger and what that accepted
is in the logs, if the file logger is only stopped while its thread waits for the queue or is about
to swap it, or with an empty queue (`exit_drains`).
-/

namespace Mclog

open General

namespace DaemonThreads

variable {d d' : DaemonThreads}

/-! ### Who has called the sinks -/

/-- The calls of a sink so far. -/
def calls (d : DaemonThreads) : DaemonSink → List ProcessCall
  | .fileLogger => d.fileLoggerCalls
  | .mcastSender => d.mcastSenderCalls

/-- The messages of the calls from a source. -/
def callsFrom (source : MessageSource) (calls : List ProcessCall) : List Message :=
  (calls.filter fun call => call.source = source).map ProcessCall.msg

/-- The messages of the calls that returned true. -/
def acceptedIn (calls : List ProcessCall) : List Message :=
  (calls.filter ProcessCall.rc).map ProcessCall.msg

theorem callsFrom_append (source : MessageSource) (calls calls' : List ProcessCall) :
    callsFrom source (calls ++ calls') = callsFrom source calls ++ callsFrom source calls' := by
  rw [callsFrom, List.filter_append, List.map_append]
  rfl

theorem acceptedIn_append (calls calls' : List ProcessCall) :
    acceptedIn (calls ++ calls') = acceptedIn calls ++ acceptedIn calls' := by
  rw [acceptedIn, List.filter_append, List.map_append]
  rfl

/-- What a receiver has read, it has handed to each of its sinks or has in hand. -/
def HandsOn (d : DaemonThreads) (source : MessageSource) (sinks : List DaemonSink)
    (rt : ReceiverThread) : Prop :=
  ∀ sink, callsFrom source (d.calls sink) ++ rt.left sink = ReceiverThread.share sinks sink rt.read

/-- Both receivers hand on what they read; the multicast receiver to the file logger only. -/
structure Sources (d : DaemonThreads) : Prop where
  loopback : d.HandsOn .loopback [.mcastSender, .fileLogger] d.loopbackReceiver
  multicast : d.HandsOn .multicast [.fileLogger] d.mcastReceiver

theorem callsFrom_process (d : DaemonThreads) (source source' : MessageSource) (msg : Message)
    (sink sink' : DaemonSink) :
    callsFrom source' ((d.process source msg sink).calls sink') =
      callsFrom source' (d.calls sink') ++
        if source' = source then ReceiverThread.given sink' (some (msg, sink)) else [] := by
  have hone : ∀ rc, callsFrom source' [⟨source, msg, rc⟩] =
      if source' = source then [msg] else [] := by
    intro rc
    by_cases hsource : source' = source
    · simp [callsFrom, hsource]
    · simp [callsFrom, hsource, Ne.symm hsource]
  cases sink with
  | fileLogger =>
    cases sink' with
    | fileLogger =>
      show callsFrom source' (d.fileLoggerCalls ++ _) = _
      rw [callsFrom_append, hone]
      rfl
    | mcastSender =>
      show callsFrom source' d.mcastSenderCalls = _
      simp [ReceiverThread.given, calls]
  | mcastSender =>
    cases sink' with
    | fileLogger =>
      show callsFrom source' d.fileLoggerCalls = _
      simp [ReceiverThread.given, calls]
    | mcastSender =>
      show callsFrom source' (d.mcastSenderCalls ++ _) = _
      rw [callsFrom_append, hone]
      rfl

theorem callsFrom_handed (d : DaemonThreads) (source source' : MessageSource)
    (out : Option (Message × DaemonSink)) (sink' : DaemonSink) :
    callsFrom source' ((d.handed source out).calls sink') =
      callsFrom source' (d.calls sink') ++
        if source' = source then ReceiverThread.given sink' out else [] := by
  cases out with
  | none =>
    show callsFrom source' (d.calls sink') = _
    simp [ReceiverThread.given]
  | some p => exact callsFrom_process d source source' p.1 p.2 sink'

/-- A call of a sink leaves the receivers as they are. -/
theorem receivers_process (d : DaemonThreads) (source : MessageSource) (msg : Message)
    (sink : DaemonSink) :
    (d.process source msg sink).loopbackReceiver = d.loopbackReceiver ∧
      (d.process source msg sink).mcastReceiver = d.mcastReceiver := by
  cases sink <;> exact ⟨rfl, rfl⟩

theorem receivers_handed (d : DaemonThreads) (source : MessageSource)
    (out : Option (Message × DaemonSink)) :
    (d.handed source out).loopbackReceiver = d.loopbackReceiver ∧
      (d.handed source out).mcastReceiver = d.mcastReceiver := by
  cases out with
  | none => exact ⟨rfl, rfl⟩
  | some p => exact d.receivers_process source p.1 p.2

/-- A receiver's thread hands on what it has. -/
theorem HandsOn.threadStep {source : MessageSource} {sinks : List DaemonSink}
    {rt rt' : ReceiverThread} {stopFirst : Bool} {e : ReceiverEvent}
    {out : Option (Message × DaemonSink)} (h : d.HandsOn source sinks rt)
    (hstep : rt.threadStep sinks stopFirst e = some (rt', out))
    (hcalls : ∀ sink, callsFrom source (d'.calls sink) =
      callsFrom source (d.calls sink) ++ ReceiverThread.given sink out) :
    d'.HandsOn source sinks rt' := by
  obtain ⟨-, -, new, hread, haccount⟩ := ReceiverThread.threadStep_account hstep
  intro sink
  have hshare : ReceiverThread.share sinks sink (rt.read ++ new) =
      ReceiverThread.share sinks sink rt.read ++ ReceiverThread.share sinks sink new := by
    unfold ReceiverThread.share
    rw [List.flatMap_append]
  rw [hcalls sink, hread, hshare, ← h sink, List.append_assoc, List.append_assoc, haccount sink]

/-- What the receivers have done and have in hand stays. -/
structure Quiet (d d' : DaemonThreads) : Prop where
  calls : ∀ sink, d'.calls sink = d.calls sink
  loopback : d'.loopbackReceiver.read = d.loopbackReceiver.read ∧
    ∀ sink, d'.loopbackReceiver.left sink = d.loopbackReceiver.left sink
  multicast : d'.mcastReceiver.read = d.mcastReceiver.read ∧
    ∀ sink, d'.mcastReceiver.left sink = d.mcastReceiver.left sink

/-- The receivers are as they were. -/
theorem quiet_of_eq (hfile : d'.fileLoggerCalls = d.fileLoggerCalls)
    (hmcast : d'.mcastSenderCalls = d.mcastSenderCalls)
    (hloopback : d'.loopbackReceiver = d.loopbackReceiver)
    (hmulticast : d'.mcastReceiver = d.mcastReceiver) : Quiet d d' := by
  refine ⟨fun sink => ?_, by rw [hloopback]; exact ⟨rfl, fun _ => rfl⟩,
    by rw [hmulticast]; exact ⟨rfl, fun _ => rfl⟩⟩
  cases sink with
  | fileLogger => exact hfile
  | mcastSender => exact hmcast

theorem Sources.quiet (h : Sources d) (hquiet : Quiet d d') : Sources d' := by
  refine ⟨fun sink => ?_, fun sink => ?_⟩
  · rw [hquiet.calls sink, hquiet.loopback.1, hquiet.loopback.2 sink]
    exact h.loopback sink
  · rw [hquiet.calls sink, hquiet.multicast.1, hquiet.multicast.2 sink]
    exact h.multicast sink

/-! ### What the sinks have done -/

section

variable (io : StreamIO) (aead : Aead) (key : Str)

/-- The datagrams of a packet sealed with the daemon's key. -/
def Emitted (out : List Str) (batch : List Message) : Prop :=
  ∃ sender : MulticastSender, sender.key = key ∧ SealedDatagrams io aead sender out batch

/-- The sinks account for what their `Process` has accepted. -/
structure Sinks (d : DaemonThreads) : Prop where
  fileAccounts : d.fileLogger.Accounts
  fileAccepted : d.fileLogger.accepted = acceptedIn d.fileLoggerCalls
  mcastSends : d.mcastSender.Sends io (Emitted io aead key)
  mcastAccepted : d.mcastSender.accepted = acceptedIn d.mcastSenderCalls
  mcastOpen : d.mcastSender.Ended ∨ d.sockets.isSome

end

variable {io : StreamIO} {aead : Aead} {key : Str} {nonces : Nat → Nonce}

/-- A call of a sink that returns `rc`. -/
theorem acceptedIn_concat (calls : List ProcessCall) (source : MessageSource) (msg : Message)
    (rc : Bool) :
    acceptedIn (calls ++ [⟨source, msg, rc⟩]) = acceptedIn calls ++ if rc then [msg] else [] := by
  rw [acceptedIn_append]
  cases rc <;> rfl

/-- The sinks are as they were. -/
theorem Sinks.of_eq (h : Sinks io aead key d) (hfile : d'.fileLogger = d.fileLogger)
    (hmcast : d'.mcastSender = d.mcastSender) (hfileCalls : d'.fileLoggerCalls = d.fileLoggerCalls)
    (hmcastCalls : d'.mcastSenderCalls = d.mcastSenderCalls) (hsockets : d'.sockets = d.sockets) :
    Sinks io aead key d' := by
  obtain ⟨haccounts, hfileAccepted, hsends, hmcastAccepted, hopen⟩ := h
  refine ⟨?_, ?_, ?_, ?_, ?_⟩
  · rwa [hfile]
  · rwa [hfile, hfileCalls]
  · rwa [hmcast]
  · rwa [hmcast, hmcastCalls]
  · rwa [hmcast, hsockets]

theorem Sinks.process (h : Sinks io aead key d) (source : MessageSource) (msg : Message)
    (sink : DaemonSink) : Sinks io aead key (d.process source msg sink) := by
  cases sink with
  | fileLogger =>
    obtain ⟨-, -, -, -, haccepted⟩ := d.fileLogger.process_spec msg
    refine ⟨h.fileAccounts.process msg, ?_, h.mcastSends, h.mcastAccepted, h.mcastOpen⟩
    show (d.fileLogger.process msg).accepted = acceptedIn (d.fileLoggerCalls ++ [_])
    rw [haccepted, acceptedIn_concat, h.fileAccepted]
  | mcastSender =>
    obtain ⟨-, hpc, haccepted⟩ := d.mcastSender.process_spec d.passes msg
    refine ⟨h.fileAccounts, h.fileAccepted, h.mcastSends.process d.passes msg, ?_, ?_⟩
    · show (d.mcastSender.process d.passes msg).accepted = acceptedIn (d.mcastSenderCalls ++ [_])
      rw [haccepted, acceptedIn_concat, h.mcastAccepted]
    · show (d.mcastSender.process d.passes msg).Ended ∨ _
      unfold SenderThread.Ended
      rw [hpc]
      exact h.mcastOpen

theorem Sinks.handed (h : Sinks io aead key d) (source : MessageSource)
    (out : Option (Message × DaemonSink)) : Sinks io aead key (d.handed source out) := by
  cases out with
  | none => exact h
  | some p => exact h.process source p.1 p.2

/-- `SendPacket` seals with the daemon's key, whatever sockets are open. -/
theorem sendsPacket (hopen : d.sockets.isSome) :
    SendsPacket io (Emitted io aead key) (d.sendPacket aead key nonces) := by
  obtain ⟨sockets, hsockets⟩ := Option.isSome_iff_exists.mp hopen
  intro s batch hsize hholds
  unfold DaemonThreads.sendPacket
  rw [hsockets]
  obtain ⟨hlen, hreset, out, hout, hsealed⟩ :=
    MulticastSender.sendsPacket io aead { key, sockets, nonces } s batch hsize hholds
  exact ⟨hlen, hreset, out, hout, _, rfl, hsealed⟩

/-- The packet of a thread that is started. -/
theorem pkt_of_opened {opened : Option (Sockets × Vector UInt8 1200)} {pkt : MessagePacket}
    (h : pkt ∈ opened.bind fun o => MessagePacket.ofBuf o.2.toList) :
    pkt.buf.length = 1200 ∧ pkt.Holds [] := by
  obtain ⟨o, -, hpkt⟩ := Option.bind_eq_some_iff.mp h
  obtain ⟨hholds, hbuf⟩ := MessagePacket.holds_ofBuf hpkt
  refine ⟨?_, hholds⟩
  rw [hbuf]
  simp

/-! ### A step of `main` -/

/-- A receiver that is started has nothing in hand, as when it was stopped. -/
theorem left_start {rt : ReceiverThread} (hjoin : rt.Joinable) (loops : Bool) (sink : DaemonSink) :
    (rt.start loops).left sink = rt.left sink := by
  rw [ReceiverThread.left_of_joinable hjoin sink]
  cases loops with
  | true => rfl
  | false =>
    show rt.left sink = []
    exact ReceiverThread.left_of_joinable hjoin sink

theorem quiet_stopStep {c : DaemonComponent} (h : d.stopStep c = some d') : Quiet d d' := by
  have hleft : ∀ {rt rt' : ReceiverThread}, rt'.pc = rt.pc → ∀ sink, rt'.left sink = rt.left sink := by
    intro rt rt' hpc sink
    unfold ReceiverThread.left
    rw [hpc]
  cases c with
  | loopbackReceiver =>
    obtain ⟨rt, hrt, rfl⟩ := Option.map_eq_some_iff.mp h
    obtain ⟨-, -, hpc, hread, -⟩ := ReceiverThread.stopStep_spec hrt
    exact ⟨fun sink => (by cases sink <;> rfl), ⟨hread, hleft hpc⟩, ⟨rfl, fun _ => rfl⟩⟩
  | fileLogger =>
    obtain ⟨fl, -, rfl⟩ := Option.map_eq_some_iff.mp h
    exact quiet_of_eq rfl rfl rfl rfl
  | mcastSender =>
    obtain ⟨st, -, rfl⟩ := Option.map_eq_some_iff.mp h
    exact quiet_of_eq rfl rfl rfl rfl
  | mcastReceiver =>
    obtain ⟨rt, hrt, rfl⟩ := Option.map_eq_some_iff.mp h
    obtain ⟨-, -, hpc, hread, -⟩ := ReceiverThread.stopStep_spec hrt
    exact ⟨fun sink => (by cases sink <;> rfl), ⟨rfl, fun _ => rfl⟩, ⟨hread, hleft hpc⟩⟩

theorem quiet_mainStep (h : Orderly d) (hstep : d.mainStep = some d') : Quiet d d' := by
  have hordered := h.ordered
  have hcalls : ∀ {d' : DaemonThreads}, d'.fileLoggerCalls = d.fileLoggerCalls →
      d'.mcastSenderCalls = d.mcastSenderCalls → ∀ sink, d'.calls sink = d.calls sink := by
    intro d' hfile hmcast sink
    cases sink with
    | fileLogger => exact hfile
    | mcastSender => exact hmcast
  unfold mainStep at hstep
  cases htodo : d.todo with
  | nil =>
    rw [htodo] at hstep
    cases hstep
  | cons a todo =>
    rw [htodo] at hstep hordered
    cases a with
    | stop c =>
      dsimp only at hstep
      split_ifs at hstep
      · obtain rfl := Option.some.inj hstep
        exact quiet_of_eq rfl rfl rfl rfl
      · exact quiet_stopStep hstep
    | startLoopbackReceiver loops =>
      obtain rfl := Option.some.inj hstep
      have hjoin : d.loopbackReceiver.Joinable :=
        h.ended .loopbackReceiver (of_decide_eq_true hordered.1)
      exact ⟨hcalls rfl rfl, ⟨rfl, left_start hjoin loops⟩, ⟨rfl, fun _ => rfl⟩⟩
    | openMcastReceiver loops =>
      obtain rfl := Option.some.inj hstep
      have hjoin : d.mcastReceiver.Joinable :=
        h.ended .mcastReceiver (of_decide_eq_true hordered.1)
      exact ⟨hcalls rfl rfl, ⟨rfl, fun _ => rfl⟩, ⟨rfl, left_start hjoin loops⟩⟩
    | _ =>
      obtain rfl := Option.some.inj hstep
      exact quiet_of_eq rfl rfl rfl rfl

theorem Sinks.stopStep {c : DaemonComponent} (h : Sinks io aead key d)
    (hstep : d.stopStep c = some d') : Sinks io aead key d' := by
  cases c with
  | loopbackReceiver =>
    obtain ⟨rt, -, rfl⟩ := Option.map_eq_some_iff.mp hstep
    exact h.of_eq rfl rfl rfl rfl rfl
  | fileLogger =>
    obtain ⟨fl, hfl, rfl⟩ := Option.map_eq_some_iff.mp hstep
    obtain ⟨-, -, -, haccepted, -, haccounts⟩ := FileLogger.stopStep_spec hfl
    exact ⟨haccounts h.fileAccounts, haccepted.trans h.fileAccepted, h.mcastSends, h.mcastAccepted,
      h.mcastOpen⟩
  | mcastSender =>
    obtain ⟨st, hst, rfl⟩ := Option.map_eq_some_iff.mp hstep
    obtain ⟨-, -, hpc, haccepted, -, hsends⟩ := SenderThread.stopStep_spec hst
    refine ⟨h.fileAccounts, h.fileAccepted, hsends h.mcastSends, haccepted.trans h.mcastAccepted, ?_⟩
    show st.Ended ∨ _
    unfold SenderThread.Ended
    rw [hpc]
    exact h.mcastOpen
  | mcastReceiver =>
    obtain ⟨rt, -, rfl⟩ := Option.map_eq_some_iff.mp hstep
    exact h.of_eq rfl rfl rfl rfl rfl

/-- What the sinks have accepted survives that they are stopped and started. -/
theorem Sinks.main (h : Sinks io aead key d) (horderly : Orderly d)
    (hstep : d.mainStep = some d') : Sinks io aead key d' := by
  have hordered := horderly.ordered
  unfold mainStep at hstep
  cases htodo : d.todo with
  | nil =>
    rw [htodo] at hstep
    cases hstep
  | cons a todo =>
    rw [htodo] at hstep hordered
    cases a with
    | stop c =>
      dsimp only at hstep
      split_ifs at hstep
      · obtain rfl := Option.some.inj hstep
        exact h.of_eq rfl rfl rfl rfl rfl
      · exact h.stopStep hstep
    | openMcastSender passes opened =>
      obtain rfl := Option.some.inj hstep
      have hended : d.mcastSender.Ended := horderly.ended .mcastSender (of_decide_eq_true hordered.1)
      obtain ⟨-, haccepted, hsends⟩ := @SenderThread.openAgain_spec io (Emitted io aead key) _
        (fun _ hpkt => pkt_of_opened hpkt) d.mcastSender
      refine ⟨h.fileAccounts, h.fileAccepted, hsends hended h.mcastSends,
        haccepted.trans h.mcastAccepted, ?_⟩
      cases opened with
      | none => exact Or.inl hended
      | some o => exact Or.inr rfl
    | startFileLogger logs =>
      obtain rfl := Option.some.inj hstep
      have hended : d.fileLogger.Ended := horderly.ended .fileLogger (of_decide_eq_true hordered.1)
      obtain ⟨-, haccepted, haccounts⟩ := d.fileLogger.startAgain_spec logs
      exact ⟨haccounts hended h.fileAccounts, haccepted.trans h.fileAccepted, h.mcastSends,
        h.mcastAccepted, h.mcastOpen⟩
    | _ =>
      obtain rfl := Option.some.inj hstep
      exact h.of_eq rfl rfl rfl rfl rfl

/-! ### Runs of mclogd -/

variable (io aead key) in
/-- The invariant of mclogd. -/
structure Sound (d : DaemonThreads) : Prop where
  orderly : Orderly d
  sources : Sources d
  sinks : Sinks io aead key d

theorem sound_start {buf : Vector UInt8 1200} {pkt : MessagePacket}
    (hpkt : MessagePacket.ofBuf buf.toList = some pkt) (r : RestartResults) :
    Sound io aead key (start pkt r) := by
  obtain ⟨hholds, hbuf⟩ := MessagePacket.holds_ofBuf hpkt
  have hsize : pkt.buf.length = 1200 := by
    rw [hbuf]
    simp
  refine ⟨orderly_start pkt r, ⟨fun sink => ?_, fun sink => ?_⟩, rfl, rfl, ?_, rfl, Or.inl (Or.inl rfl)⟩
  · cases sink <;> rfl
  · cases sink <;> rfl
  · exact ⟨[], ⟨[], []⟩, ⟨hsize, hholds, .nil⟩, rfl, List.Sublist.refl _⟩

/-- A signal that `main` has waited for. -/
theorem Sound.signal (h : Sound io aead key d) (hidle : d.todo = []) (hrunning : d.exited = false)
    {todo : List MainAction} (hordered : Ordered d.stopped todo) :
    Sound io aead key { d with todo } := by
  refine ⟨⟨hordered, fun c hc => ?_, h.orderly.ended, h.orderly.fileLast, fun hexited => ?_⟩,
    h.sources.quiet (quiet_of_eq rfl rfl rfl rfl), h.sinks.of_eq rfl rfl rfl rfl rfl⟩
  · obtain ⟨todo', htodo⟩ := h.orderly.stopping c hc
    rw [hidle] at htodo
    cases htodo
  · rw [hrunning] at hexited
    cases hexited

/-- **Every step keeps the invariant.** -/
theorem Sound.step (h : Sound io aead key d) {e : DaemonStep}
    (hstep : d.step io aead key nonces e = some d') : Sound io aead key d' := by
  by_cases hexited : d.exited = true
  · rw [DaemonThreads.step.eq_def, if_pos hexited] at hstep
    cases hstep
  have hrunning : d.exited = false := by simpa using hexited
  rw [DaemonThreads.step.eq_def, if_neg hexited] at hstep
  cases e with
  | main =>
    exact ⟨h.orderly.main hrunning hstep, h.sources.quiet (quiet_mainStep h.orderly hstep),
      h.sinks.main h.orderly hstep⟩
  | hup r =>
    dsimp only at hstep
    split_ifs at hstep with htodo
    obtain rfl := Option.some.inj hstep
    exact h.signal (List.isEmpty_iff.mp htodo) hrunning (ordered_restartActions _ r)
  | term =>
    dsimp only at hstep
    split_ifs at hstep with htodo
    obtain rfl := Option.some.inj hstep
    exact h.signal (List.isEmpty_iff.mp htodo) hrunning (ordered_exitActions _)
  | loopbackReceiver e =>
    obtain ⟨⟨rt, out⟩, hrt, rfl⟩ := Option.map_eq_some_iff.mp hstep
    obtain ⟨hstop, hnot, -⟩ := ReceiverThread.threadStep_account hrt
    have hcalm : Calm d { d with loopbackReceiver := rt } :=
      (Updates.loopbackReceiver rt).calm hstop hnot
    have hsinks : Sinks io aead key { d with loopbackReceiver := rt } :=
      h.sinks.of_eq rfl rfl rfl rfl rfl
    refine ⟨h.orderly.calm (hcalm.trans (calm_handed _ .loopback out)), ⟨?_, fun sink => ?_⟩,
      hsinks.handed .loopback out⟩
    · rw [(receivers_handed _ _ _).1]
      exact h.sources.loopback.threadStep hrt fun sink =>
        callsFrom_handed _ .loopback .loopback out sink
    · rw [callsFrom_handed, if_neg (by simp), List.append_nil, (receivers_handed _ _ _).2]
      exact h.sources.multicast sink
  | mcastReceiver e =>
    obtain ⟨⟨rt, out⟩, hrt, rfl⟩ := Option.map_eq_some_iff.mp hstep
    obtain ⟨hstop, hnot, -⟩ := ReceiverThread.threadStep_account hrt
    have hcalm : Calm d { d with mcastReceiver := rt } := (Updates.mcastReceiver rt).calm hstop hnot
    have hsinks : Sinks io aead key { d with mcastReceiver := rt } :=
      h.sinks.of_eq rfl rfl rfl rfl rfl
    refine ⟨h.orderly.calm (hcalm.trans (calm_handed _ .multicast out)), ⟨fun sink => ?_, ?_⟩,
      hsinks.handed .multicast out⟩
    · rw [callsFrom_handed, if_neg (by simp), List.append_nil, (receivers_handed _ _ _).1]
      exact h.sources.loopback sink
    · rw [(receivers_handed _ _ _).2]
      exact h.sources.multicast.threadStep hrt fun sink =>
        callsFrom_handed _ .multicast .multicast out sink
  | fileLogger =>
    obtain ⟨fl, hfl, rfl⟩ := Option.map_eq_some_iff.mp hstep
    obtain ⟨hstop, hnot, haccepted, -, haccounts⟩ := FileLogger.threadStep_spec hfl
    have hcalm : Calm d { d with fileLogger := fl } := (Updates.fileLogger fl).calm hstop hnot
    refine ⟨h.orderly.calm hcalm,
      h.sources.quiet (quiet_of_eq rfl rfl rfl rfl),
      haccounts h.sinks.fileAccounts, haccepted.trans h.sinks.fileAccepted, h.sinks.mcastSends,
      h.sinks.mcastAccepted, h.sinks.mcastOpen⟩
  | mcastSender ready =>
    obtain ⟨st, hst, rfl⟩ := Option.map_eq_some_iff.mp hstep
    have hopen : d.sockets.isSome := by
      rcases h.sinks.mcastOpen with hended | hopen
      · -- A thread that has ended takes no step.
        unfold SenderThread.threadStep at hst
        rcases hended with hpc | hpc <;> simp [hpc] at hst
      · exact hopen
    have hsend : SendsPacket io (Emitted io aead key) (d.sendPacket aead key nonces) :=
      sendsPacket hopen
    obtain ⟨hstop, hnot, haccepted, hsends⟩ := SenderThread.threadStep_spec hsend hst
    have hcalm : Calm d { d with mcastSender := st } := (Updates.mcastSender st).calm hstop hnot
    refine ⟨h.orderly.calm hcalm,
      h.sources.quiet (quiet_of_eq rfl rfl rfl rfl),
      h.sinks.fileAccounts, h.sinks.fileAccepted, hsends h.sinks.mcastSends,
      haccepted.trans h.sinks.mcastAccepted, Or.inr hopen⟩
  | log msg sink =>
    obtain rfl := Option.some.inj hstep
    refine ⟨h.orderly.calm (calm_process d .own msg sink), ⟨fun sink' => ?_, fun sink' => ?_⟩,
      h.sinks.process .own msg sink⟩
    · rw [callsFrom_process, if_neg (by simp), List.append_nil, (receivers_process _ _ _ _).1]
      exact h.sources.loopback sink'
    · rw [callsFrom_process, if_neg (by simp), List.append_nil, (receivers_process _ _ _ _).2]
      exact h.sources.multicast sink'

/-- `main` clears the file logger's `_run` while the file logger's thread waits for the queue or is
    about to swap it, or when the queue is empty. -/
def StopsDrained (d : DaemonThreads) : DaemonStep → Prop
  | .main =>
    match d.todo with
    | .stop .fileLogger :: _ => d.fileLogger.StopsDrained .stop
    | _ => True
  | _ => True

instance (d : DaemonThreads) (e : DaemonStep) : Decidable (d.StopsDrained e) := by
  unfold StopsDrained
  split
  · split <;> infer_instance
  · infer_instance

/-- How the calls end when everything can be opened. -/
def allOpened : RestartResults where
  parsed := true
  logs := true
  passes := fun _ => true
  mcastSender := true
  opened := some (oneSocketSender.sockets, Vector.replicate 1200 0)
  mcastReceiver := true
  mcastReceiverLoops := true
  loopbackReceiverLoops := true

/-- mclogd starts, gets a message from its own host and one by multicast, and exits at a SIGTERM. -/
def exitRun : List DaemonStep :=
  [List.replicate 4 .main,
    [.loopbackReceiver .next, .loopbackReceiver (.datagram [shortMessage]), .loopbackReceiver .next,
      .mcastReceiver .next, .mcastReceiver (.datagram [shortMessage]), .mcastReceiver .next,
      .loopbackReceiver .next, .fileLogger],
    [true, true, true, true, true, true, false, true].map .mcastSender,
    .term :: List.replicate 2 .main, [.loopbackReceiver .next, .loopbackReceiver .next],
    List.replicate 4 .main, [.mcastSender true], List.replicate 4 .main,
    List.replicate 6 .fileLogger, List.replicate 4 .main,
    [.mcastReceiver .next, .mcastReceiver .next], List.replicate 3 .main].flatten

/-- What is multicast of it. -/
def exitDatagram : Str :=
  MessagePacket.sealed tagAead oneSocketSender.key (oneSocketSender.nonces 0)
    (encodeBatch prefixedStreams [shortMessage])

theorem exists_exited : ∃ pkt d,
    MessagePacket.ofBuf (Vector.replicate 1200 (0 : UInt8)).toList = some pkt ∧
      Reachable (step prefixedStreams tagAead oneSocketSender.key oneSocketSender.nonces)
        StopsDrained (start pkt allOpened) d ∧
      d.exited ∧ d.fileLogger.handed.length = 2 ∧
      d.mcastSender.sender.sent = [[exitDatagram]] ∧
      acceptedIn d.mcastSenderCalls = [shortMessage] ∧ d.loopbackReceiver.read.length = 1 := by
  have hrun : ((zeroPacket.bind fun pkt =>
      exitRun.foldlM (fun d e => if d.StopsDrained e then
        d.step prefixedStreams tagAead oneSocketSender.key oneSocketSender.nonces e else none)
        (start pkt allOpened)).map fun d => (d.exited, d.fileLogger.handed.length,
          decide (d.mcastSender.sender.sent = [[exitDatagram]]),
          decide (acceptedIn d.mcastSenderCalls = [shortMessage]),
          d.loopbackReceiver.read.length)) =
      some (true, 2, true, true, 1) := by decide +kernel
  obtain ⟨d, hd, hcounts⟩ := Option.map_eq_some_iff.mp hrun
  obtain ⟨pkt, hpkt, hsteps⟩ := Option.bind_eq_some_iff.mp hd
  obtain ⟨hexited, hhanded, hsent, haccepted, hread⟩ :
      d.exited = true ∧ d.fileLogger.handed.length = 2 ∧
        d.mcastSender.sender.sent = [[exitDatagram]] ∧
        acceptedIn d.mcastSenderCalls = [shortMessage] ∧ d.loopbackReceiver.read.length = 1 := by
    simpa using hcounts
  refine ⟨pkt, d, ?_, Reachable.init.of_foldlM hsteps, hexited, hhanded, hsent, haccepted, hread⟩
  rw [Vector.toList_replicate]
  exact hpkt

/-- Both sinks get everything that the loopback receiver reads. -/
theorem share_loopbackReceiver {sink : DaemonSink} (msgs : List Message) :
    ReceiverThread.share [.mcastSender, .fileLogger] sink msgs = msgs := by
  unfold ReceiverThread.share
  cases sink <;> simp

/-- **Every state of a run is sound.** -/
theorem sound_of_reachable {io : StreamIO} {aead : Aead} {key : Str} {nonces : Nat → Nonce}
    {buf : Vector UInt8 1200} {pkt : MessagePacket}
    (hpkt : MessagePacket.ofBuf buf.toList = some pkt) {r : RestartResults} {d : DaemonThreads}
    (hd : Reachable (step io aead key nonces) (fun _ _ => True) (start pkt r) d) :
    Sound io aead key d :=
  hd.invariant (sound_start hpkt r) fun _ _ _ _ h _ hstep => h.step hstep

/-- What has been sent is some of what the sender accepted, in order. -/
theorem Sound.batches {io : StreamIO} {aead : Aead} {key : Str} {d : DaemonThreads}
    (h : Sound io aead key d) :
    ∃ batches, List.Forall₂ (Emitted io aead key) d.mcastSender.sender.sent batches ∧
      batches.flatten.Sublist (acceptedIn d.mcastSenderCalls) := by
  obtain ⟨taken, b, hshows, haccount, hsub⟩ := h.sinks.mcastSends
  refine ⟨b.closed, hshows.sent, ?_⟩
  rw [← h.sinks.mcastAccepted, haccount, List.append_assoc]
  exact ((List.sublist_append_left _ _).trans hsub).trans (List.sublist_append_left _ _)

/-- The calls of the sender bring nothing that came by multicast. -/
theorem Sound.noMulticast {io : StreamIO} {aead : Aead} {key : Str} {d : DaemonThreads}
    (h : Sound io aead key d) : callsFrom .multicast d.mcastSenderCalls = [] := by
  have hhanded := h.sources.multicast .mcastSender
  rw [show ReceiverThread.share [.fileLogger] .mcastSender d.mcastReceiver.read = [] by
    simp [ReceiverThread.share]] at hhanded
  exact (List.append_eq_nil_iff.mp hhanded).1

/-- **mclogd multicasts only what comes from its own host.**  Whatever the threads do and however
    often mclogd is restarted, what has been sent is some of what the sender accepted, in order and
    nothing twice.  None of it came by multicast, and what came from other programs of the host came
    in the order in which it was read. -/
theorem multicasts_own_host (io : StreamIO) (aead : Aead) (key : Str) (nonces : Nat → Nonce)
    (buf : Vector UInt8 1200) (pkt : MessagePacket)
    (hpkt : MessagePacket.ofBuf buf.toList = some pkt) (r : RestartResults) (d : DaemonThreads)
    (hd : Reachable (step io aead key nonces) (fun _ _ => True) (start pkt r) d) :
    (∃ batches, List.Forall₂ (Emitted io aead key) d.mcastSender.sender.sent batches ∧
      batches.flatten.Sublist (acceptedIn d.mcastSenderCalls)) ∧
    callsFrom .multicast d.mcastSenderCalls = [] ∧
    callsFrom .loopback d.mcastSenderCalls <+: d.loopbackReceiver.read := by
  have hsound : Sound io aead key d := sound_of_reachable hpkt hd
  refine ⟨hsound.batches, hsound.noMulticast, ?_⟩
  have hhanded := hsound.sources.loopback .mcastSender
  rw [share_loopbackReceiver] at hhanded
  exact ⟨_, hhanded⟩

theorem multicasts_own_host_exited : ∃ d : DaemonThreads, d.mcastSender.sender.sent.length = 1 ∧
    ∃ batches, List.Forall₂ (Emitted prefixedStreams tagAead oneSocketSender.key)
        d.mcastSender.sender.sent batches ∧
      batches.flatten.Sublist (acceptedIn d.mcastSenderCalls) := by
  obtain ⟨pkt, d, hpkt, hd, -, -, hsent, -⟩ := exists_exited
  obtain ⟨hbatches, -, -⟩ := multicasts_own_host prefixedStreams tagAead oneSocketSender.key
    oneSocketSender.nonces _ pkt hpkt allOpened d (hd.mono fun _ _ _ => trivial)
  exact ⟨d, by rw [hsent]; rfl, hbatches⟩

/-- **The file logger accounts for every message.**  What its `Process` accepted it has handed on to
    the logs, has in hand or has in its queue, in order; its calls are those of the two receivers,
    each in the order in which it read, and the daemon's own; and when mclogd exits neither a
    receiver nor the file logger's thread has anything in hand. -/
theorem fileLogger_accounts (io : StreamIO) (aead : Aead) (key : Str) (nonces : Nat → Nonce)
    (buf : Vector UInt8 1200) (pkt : MessagePacket)
    (hpkt : MessagePacket.ofBuf buf.toList = some pkt) (r : RestartResults) (d : DaemonThreads)
    (hd : Reachable (step io aead key nonces) (fun _ _ => True) (start pkt r) d) :
    d.fileLogger.handed ++ d.fileLogger.inHand ++ d.fileLogger.inQueue.entries =
      acceptedIn d.fileLoggerCalls ∧
    callsFrom .loopback d.fileLoggerCalls ++ d.loopbackReceiver.left .fileLogger =
      d.loopbackReceiver.read ∧
    callsFrom .multicast d.fileLoggerCalls ++ d.mcastReceiver.left .fileLogger =
      d.mcastReceiver.read ∧
    (d.exited → d.fileLogger.inHand = [] ∧ d.loopbackReceiver.left .fileLogger = [] ∧
      d.mcastReceiver.left .fileLogger = []) := by
  have hsound : Sound io aead key d := sound_of_reachable hpkt hd
  refine ⟨?_, ?_, ?_, fun hexited => ⟨?_, ?_, ?_⟩⟩
  · rw [← hsound.sinks.fileAccepted]
    exact hsound.sinks.fileAccounts.symm
  · have hhanded := hsound.sources.loopback .fileLogger
    rw [share_loopbackReceiver] at hhanded
    exact hhanded
  · have hhanded := hsound.sources.multicast .fileLogger
    rw [show ReceiverThread.share [.fileLogger] .fileLogger d.mcastReceiver.read =
      d.mcastReceiver.read by simp [ReceiverThread.share]] at hhanded
    exact hhanded
  · exact FileLogger.inHand_of_ended
      (hsound.orderly.ended .fileLogger (hsound.orderly.exits hexited .fileLogger))
  · exact ReceiverThread.left_of_joinable
      (hsound.orderly.ended .loopbackReceiver (hsound.orderly.exits hexited .loopbackReceiver)) _
  · exact ReceiverThread.left_of_joinable
      (hsound.orderly.ended .mcastReceiver (hsound.orderly.exits hexited .mcastReceiver)) _

theorem fileLogger_accounts_exited : ∃ d : DaemonThreads, d.fileLogger.handed.length = 2 ∧
    d.fileLogger.handed ++ d.fileLogger.inHand ++ d.fileLogger.inQueue.entries =
      acceptedIn d.fileLoggerCalls := by
  obtain ⟨pkt, d, hpkt, hd, -, hhanded, -, -⟩ := exists_exited
  have haccounts := fileLogger_accounts prefixedStreams tagAead oneSocketSender.key
    oneSocketSender.nonces _ pkt hpkt allOpened d (hd.mono fun _ _ _ => trivial)
  exact ⟨d, hhanded, haccounts.1⟩

/-! ### What has been logged when mclogd exits -/

/-- Once the file logger's `_run` is cleared, what counts is what it had accepted then, and the
    loopback receiver calls no more. -/
structure Drained (d : DaemonThreads) : Prop where
  draining : d.fileLogger.Draining
  later : d.fileLogger.stop ≠ .notCalled → ∃ earlier later,
    d.fileLoggerCalls = earlier ++ later ∧ d.fileLogger.beforeStop = acceptedIn earlier ∧
      callsFrom .loopback later = []

theorem Drained.of_eq (h : Drained d) (hfile : d'.fileLogger = d.fileLogger)
    (hcalls : d'.fileLoggerCalls = d.fileLoggerCalls) : Drained d' := by
  obtain ⟨hdraining, hlater⟩ := h
  refine ⟨?_, ?_⟩
  · rwa [hfile]
  · rwa [hfile, hcalls]

/-- The loopback receiver calls only while the file logger is not being stopped. -/
theorem Drained.process (h : Drained d) {source : MessageSource}
    (hsource : source = .loopback → d.fileLogger.stop = .notCalled) (msg : Message)
    (sink : DaemonSink) : Drained (d.process source msg sink) := by
  cases sink with
  | mcastSender => exact h.of_eq rfl rfl
  | fileLogger =>
    obtain ⟨hstop, -, hbefore, -, -⟩ := d.fileLogger.process_spec msg
    refine ⟨FileLogger.draining_process h.draining msg, fun hcalled => ?_⟩
    have hcalled' : d.fileLogger.stop ≠ .notCalled := by
      rw [← hstop]
      exact hcalled
    obtain ⟨earlier, later, hcalls, hearlier, hlater⟩ := h.later hcalled'
    have hother : source ≠ .loopback := fun heq => hcalled' (hsource heq)
    refine ⟨earlier, later ++ [⟨source, msg, (d.fileLogger.inQueue.pushBack msg).1⟩], ?_,
      hbefore.trans hearlier, ?_⟩
    · show d.fileLoggerCalls ++ [_] = _
      rw [hcalls, List.append_assoc]
    · rw [callsFrom_append, hlater]
      simp [callsFrom, hother]

theorem Drained.handed (h : Drained d) {source : MessageSource}
    (hsource : source = .loopback → d.fileLogger.stop = .notCalled)
    (out : Option (Message × DaemonSink)) : Drained (d.handed source out) := by
  cases out with
  | none => exact h
  | some p => exact h.process hsource p.1 p.2

theorem Drained.stopStep {c : DaemonComponent} (h : Drained d)
    (haccepted : d.fileLogger.accepted = acceptedIn d.fileLoggerCalls)
    (hok : c = .fileLogger → d.fileLogger.StopsDrained .stop)
    (hstep : d.stopStep c = some d') : Drained d' := by
  cases c with
  | fileLogger =>
    obtain ⟨fl, hfl, rfl⟩ := Option.map_eq_some_iff.mp hstep
    have hbefore := FileLogger.stopStep_beforeStop hfl
    refine ⟨FileLogger.draining_stopStep h.draining (hok rfl) hfl, fun _ => ?_⟩
    by_cases hcalled : d.fileLogger.stop = .notCalled
    · rw [if_pos hcalled] at hbefore
      exact ⟨d.fileLoggerCalls, [], (List.append_nil _).symm, hbefore.trans haccepted, rfl⟩
    · rw [if_neg hcalled] at hbefore
      obtain ⟨earlier, later, hcalls, hearlier, hlater⟩ := h.later hcalled
      exact ⟨earlier, later, hcalls, hbefore.trans hearlier, hlater⟩
  | _ =>
    obtain ⟨t, -, rfl⟩ := Option.map_eq_some_iff.mp hstep
    exact h.of_eq rfl rfl

theorem Drained.main (h : Drained d) (hsound : Sound io aead key d) (hok : d.StopsDrained .main)
    (hstep : d.mainStep = some d') : Drained d' := by
  have hordered := hsound.orderly.ordered
  unfold mainStep at hstep
  cases htodo : d.todo with
  | nil =>
    rw [htodo] at hstep
    cases hstep
  | cons a todo =>
    rw [htodo] at hstep hordered
    cases a with
    | stop c =>
      dsimp only at hstep
      split_ifs at hstep
      · obtain rfl := Option.some.inj hstep
        exact h.of_eq rfl rfl
      · refine h.stopStep hsound.sinks.fileAccepted (fun hc => ?_) hstep
        unfold StopsDrained at hok
        rw [htodo, hc] at hok
        exact hok
    | startFileLogger logs =>
      obtain rfl := Option.some.inj hstep
      have hended : d.fileLogger.Ended :=
        hsound.orderly.ended .fileLogger (of_decide_eq_true hordered.1)
      refine ⟨FileLogger.draining_startAgain h.draining hended logs, fun hcalled => ?_⟩
      exact absurd (d.fileLogger.startAgain_spec logs).1 hcalled
    | _ =>
      obtain rfl := Option.some.inj hstep
      exact h.of_eq rfl rfl

/-- A step that leaves nothing behind. -/
theorem Drained.step (h : Drained d) (hsound : Sound io aead key d) {e : DaemonStep}
    (hok : d.StopsDrained e) (hstep : d.step io aead key nonces e = some d') : Drained d' := by
  by_cases hexited : d.exited = true
  · rw [DaemonThreads.step.eq_def, if_pos hexited] at hstep
    cases hstep
  rw [DaemonThreads.step.eq_def, if_neg hexited] at hstep
  cases e with
  | main => exact h.main hsound hok hstep
  | hup r =>
    dsimp only at hstep
    split_ifs at hstep
    obtain rfl := Option.some.inj hstep
    exact h.of_eq rfl rfl
  | term =>
    dsimp only at hstep
    split_ifs at hstep
    obtain rfl := Option.some.inj hstep
    exact h.of_eq rfl rfl
  | loopbackReceiver e =>
    obtain ⟨⟨rt, out⟩, hrt, rfl⟩ := Option.map_eq_some_iff.mp hstep
    obtain ⟨-, hnot, -⟩ := ReceiverThread.threadStep_account hrt
    have hdrained : Drained { d with loopbackReceiver := rt } := h.of_eq rfl rfl
    refine hdrained.handed (fun _ => ?_) out
    -- The thread runs, so that `main` has not got to the file logger.
    by_contra hcalled
    exact hnot (hsound.orderly.ended .loopbackReceiver (hsound.orderly.fileLast hcalled))
  | mcastReceiver e =>
    obtain ⟨⟨rt, out⟩, -, rfl⟩ := Option.map_eq_some_iff.mp hstep
    have hdrained : Drained { d with mcastReceiver := rt } := h.of_eq rfl rfl
    exact hdrained.handed (fun hsource => (by cases hsource)) out
  | fileLogger =>
    obtain ⟨fl, hfl, rfl⟩ := Option.map_eq_some_iff.mp hstep
    obtain ⟨hstop, -, -, hbefore, -⟩ := FileLogger.threadStep_spec hfl
    refine ⟨FileLogger.draining_threadStep h.draining hfl, fun hcalled => ?_⟩
    have hcalled' : d.fileLogger.stop ≠ .notCalled := by
      rw [← hstop]
      exact hcalled
    obtain ⟨earlier, later, hcalls, hearlier, hlater⟩ := h.later hcalled'
    exact ⟨earlier, later, hcalls, hbefore.trans hearlier, hlater⟩
  | mcastSender ready =>
    obtain ⟨st, -, rfl⟩ := Option.map_eq_some_iff.mp hstep
    exact h.of_eq rfl rfl
  | log msg sink =>
    obtain rfl := Option.some.inj hstep
    exact h.process (fun hsource => (by cases hsource)) msg sink

theorem drained_start (pkt : MessagePacket) (r : RestartResults) : Drained (start pkt r) :=
  ⟨⟨rfl, fun _ => ⟨rfl, List.nil_prefix⟩, fun _ => Or.inr (Or.inr List.nil_prefix),
    fun _ => Or.inl rfl⟩, fun _ => ⟨[], [], rfl, rfl, rfl⟩⟩

/-- **mclogd exits with everything logged**, if the file logger's `_run` is only ever cleared while
    its thread waits for the queue or is about to swap it, or when the queue is empty: everything the
    loopback receiver has read was offered to the file logger, and all it accepted until the last
    such message is in the logs.  That is why the loopback receiver is stopped first. -/
theorem exit_drains (io : StreamIO) (aead : Aead) (key : Str) (nonces : Nat → Nonce)
    (buf : Vector UInt8 1200) (pkt : MessagePacket)
    (hpkt : MessagePacket.ofBuf buf.toList = some pkt) (r : RestartResults) (d : DaemonThreads)
    (hd : Reachable (step io aead key nonces) StopsDrained (start pkt r) d) (hexited : d.exited) :
    ∃ earlier later, d.fileLoggerCalls = earlier ++ later ∧
      callsFrom .loopback earlier = d.loopbackReceiver.read ∧ callsFrom .loopback later = [] ∧
      acceptedIn earlier <+: d.fileLogger.handed := by
  obtain ⟨hsound, hdrained⟩ := hd.invariant (I := fun d => Sound io aead key d ∧ Drained d)
    ⟨sound_start hpkt r, drained_start pkt r⟩
    fun _ _ _ _ h hok hstep => ⟨h.1.step hstep, h.2.step h.1 hok hstep⟩
  have hret : d.fileLogger.stop = .returned := hsound.orderly.exits hexited .fileLogger
  have hcalled : d.fileLogger.stop ≠ .notCalled := by
    rw [hret]
    simp
  obtain ⟨earlier, later, hcalls, hearlier, hlater⟩ := hdrained.later hcalled
  refine ⟨earlier, later, hcalls, ?_, hlater, ?_⟩
  · have hhanded := hsound.sources.loopback .fileLogger
    have hjoin : d.loopbackReceiver.Joinable :=
      hsound.orderly.ended .loopbackReceiver (hsound.orderly.exits hexited .loopbackReceiver)
    rw [ReceiverThread.left_of_joinable hjoin, List.append_nil, share_loopbackReceiver] at hhanded
    rw [← hhanded]
    show _ = callsFrom .loopback d.fileLoggerCalls
    rw [hcalls, callsFrom_append, hlater, List.append_nil]
  · rw [← hearlier]
    exact hdrained.draining.prefix_handed hret

theorem exit_drains_exited : ∃ d : DaemonThreads, d.loopbackReceiver.read.length = 1 ∧
    ∃ earlier later, d.fileLoggerCalls = earlier ++ later ∧
      callsFrom .loopback earlier = d.loopbackReceiver.read ∧ callsFrom .loopback later = [] ∧
      acceptedIn earlier <+: d.fileLogger.handed := by
  obtain ⟨pkt, d, hpkt, hd, hexited, -, -, -, hread⟩ := exists_exited
  exact ⟨d, hread, exit_drains prefixedStreams tagAead oneSocketSender.key oneSocketSender.nonces _
    pkt hpkt allOpened d hd hexited⟩

end DaemonThreads

end Mclog
