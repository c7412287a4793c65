import Mclog.DaemonThreads
import Mclog.Equiv.Shutdown

/-!
# Steps of the threads of mclogd

What one step of a receiver, of the file logger or of the multicast sender does to the messages in
its hands, and what a step of its `Stop` does; a thread that is started again has none in hand.
-/

namespace Mclog

open General

/-- The phase after one more step of a `Stop`. -/
def StopPhase.next : StopPhase → StopPhase
  | .notCalled => .cleared
  | .cleared => .signalled
  | .signalled => .returned
  | .returned => .returned

/-! ### The receivers -/

namespace ReceiverThread

variable {sinks : List DaemonSink} {stopFirst : Bool} {rt rt' : ReceiverThread}
  {out : Option (Message × DaemonSink)}

/-- The messages that the thread has in hand for a sink. -/
def left (sink : DaemonSink) (rt : ReceiverThread) : List Message :=
  match rt.pc with
  | .hand left => (left.filter fun p => p.2 = sink).map Prod.fst
  | _ => []

/-- What is handed to a sink in a step. -/
def given (sink : DaemonSink) : Option (Message × DaemonSink) → List Message
  | some (msg, sink') => if sink' = sink then [msg] else []
  | none => []

/-- What a sink gets of some messages: each as many times as the sink is among the receiver's. -/
def share (sinks : List DaemonSink) (sink : DaemonSink) (msgs : List Message) : List Message :=
  msgs.flatMap fun msg => List.replicate (sinks.count sink) msg

theorem left_of_joinable (h : rt.Joinable) (sink : DaemonSink) : rt.left sink = [] := by
  unfold Joinable at h
  unfold left
  split at h <;> simp_all

/-- What is to be handed on of one message. -/
theorem filter_map_sinks (sinks : List DaemonSink) (sink : DaemonSink) (msg : Message) :
    (((sinks.map fun sink => (msg, sink)).filter fun p => p.2 = sink).map Prod.fst) =
      List.replicate (sinks.count sink) msg := by
  induction sinks with
  | nil => rfl
  | cons sink' sinks ih =>
    rw [List.map_cons, List.filter_cons]
    by_cases hs : sink' = sink
    · rw [if_pos (by simpa using hs), List.map_cons, ih, hs, List.count_cons_self,
        List.replicate_succ]
    · rw [if_neg (by simpa using hs), ih, List.count_cons_of_ne hs]

/-- What is to be handed on of a datagram. -/
theorem filter_flatMap_sinks (sinks : List DaemonSink) (sink : DaemonSink) (msgs : List Message) :
    (((msgs.flatMap fun msg => sinks.map fun sink => (msg, sink)).filter
      fun p => p.2 = sink).map Prod.fst) = share sinks sink msgs := by
  unfold share
  induction msgs with
  | nil => rfl
  | cons msg msgs ih =>
    rw [List.flatMap_cons, List.flatMap_cons, List.filter_append, List.map_append, ih,
      filter_map_sinks]

/-- **What a step of the thread does**: what it has in hand and what it reads goes to the sinks or
    stays in hand. -/
theorem threadStep_account {e : ReceiverEvent}
    (h : rt.threadStep sinks stopFirst e = some (rt', out)) :
    rt'.stop = rt.stop ∧ ¬ rt.Joinable ∧ ∃ new, rt'.read = rt.read ++ new ∧
      ∀ sink, rt.left sink ++ share sinks sink new = given sink out ++ rt'.left sink := by
  unfold threadStep at h
  cases e with
  | next =>
    cases hpc : rt.pc with
    | none => simp [hpc] at h
    | select => simp [hpc] at h
    | done => simp [hpc] at h
    | test =>
      simp only [hpc] at h
      split_ifs at h with hrun
      all_goals
        obtain ⟨rfl, rfl⟩ := Prod.mk.inj (Option.some.inj h)
        exact ⟨rfl, by simp [Joinable, hpc], [], by simp,
          fun sink => by simp [left, hpc, share, given]⟩
    | hand todo =>
      cases todo with
      | nil =>
        simp only [hpc] at h
        obtain ⟨rfl, rfl⟩ := Prod.mk.inj (Option.some.inj h)
        exact ⟨rfl, by simp [Joinable, hpc], [], by simp,
          fun sink => by simp [left, hpc, share, given]⟩
      | cons m todo =>
        simp only [hpc] at h
        obtain ⟨rfl, rfl⟩ := Prod.mk.inj (Option.some.inj h)
        refine ⟨rfl, by simp [Joinable, hpc], [], by simp, fun sink => ?_⟩
        obtain ⟨msg, sink'⟩ := m
        by_cases hsink : sink' = sink
        · simp [left, hpc, share, given, hsink]
        · simp [left, hpc, share, given, hsink]
  | datagram msgs =>
    cases hpc : rt.pc with
    | select =>
      simp only [hpc] at h
      split_ifs at h
      obtain ⟨rfl, rfl⟩ := Prod.mk.inj (Option.some.inj h)
      refine ⟨rfl, by simp [Joinable, hpc], msgs, rfl, fun sink => ?_⟩
      show rt.left sink ++ _ = [] ++ _
      rw [left, hpc, List.nil_append, List.nil_append]
      exact (filter_flatMap_sinks sinks sink msgs).symm
    | _ => simp [hpc] at h
  | nothing =>
    cases hpc : rt.pc with
    | select =>
      simp only [hpc] at h
      obtain ⟨rfl, rfl⟩ := Prod.mk.inj (Option.some.inj h)
      exact ⟨rfl, by simp [Joinable, hpc], [], by simp,
        fun sink => by simp [left, hpc, share, given]⟩
    | _ => simp [hpc] at h
  | stopped =>
    cases hpc : rt.pc with
    | select =>
      simp only [hpc] at h
      split_ifs at h
      obtain ⟨rfl, rfl⟩ := Prod.mk.inj (Option.some.inj h)
      exact ⟨rfl, by simp [Joinable, hpc], [], by simp,
        fun sink => by simp [left, hpc, share, given]⟩
    | _ => simp [hpc] at h

/-- What a step of `Stop` does. -/
theorem stopStep_spec (h : rt.stopStep = some rt') :
    rt'.stop = rt.stop.next ∧ rt.stop ≠ .returned ∧ rt'.pc = rt.pc ∧ rt'.read = rt.read ∧
      (rt'.stop = .returned → rt.Joinable) := by
  unfold stopStep at h
  cases hstop : rt.stop with
  | notCalled =>
    simp only [hstop, Option.some.injEq] at h
    subst h
    exact ⟨rfl, by simp, rfl, rfl, fun hret => by cases hret⟩
  | cleared =>
    simp only [hstop, Option.some.injEq] at h
    subst h
    exact ⟨rfl, by simp, rfl, rfl, fun hret => by cases hret⟩
  | signalled =>
    simp only [hstop] at h
    split_ifs at h with hjoin
    obtain rfl := Option.some.inj h
    exact ⟨rfl, by simp, rfl, rfl, fun _ => hjoin⟩
  | returned =>
    simp only [hstop] at h
    cases h

end ReceiverThread

/-! ### The file logger -/

namespace FileLogger

variable {fl fl' : FileLogger}

/-- The thread has ended, if there was one. -/
def Ended (fl : FileLogger) : Prop := fl.pc = .none ∨ fl.pc = .done

/-- What has been accepted has been handed on, is in hand or is in the queue. -/
def Accounts (fl : FileLogger) : Prop :=
  fl.accepted = fl.handed ++ fl.inHand ++ fl.inQueue.entries

theorem inHand_of_ended (h : fl.Ended) : fl.inHand = [] := by
  unfold inHand
  rcases h with h | h <;> rw [h]

theorem process_spec (fl : FileLogger) (msg : Message) :
    (fl.process msg).stop = fl.stop ∧ (fl.process msg).pc = fl.pc ∧
      (fl.process msg).beforeStop = fl.beforeStop ∧ (fl.process msg).handed = fl.handed ∧
      (fl.process msg).accepted =
        fl.accepted ++ if (fl.inQueue.pushBack msg).1 then [msg] else [] := by
  unfold process Queue.pushBack
  split_ifs <;> simp_all

theorem Accounts.process (h : fl.Accounts) (msg : Message) : (fl.process msg).Accounts := by
  unfold Accounts FileLogger.process Queue.pushBack at *
  split_ifs
  · show fl.accepted ++ [msg] = fl.handed ++ fl.inHand ++ (fl.inQueue.entries ++ [msg])
    rw [h, List.append_assoc _ _ [msg]]
  · exact h

theorem threadStep_spec (h : fl.threadStep = some fl') :
    fl'.stop = fl.stop ∧ ¬ fl.Ended ∧ fl'.accepted = fl.accepted ∧
      fl'.beforeStop = fl.beforeStop ∧ (fl.Accounts → fl'.Accounts) := by
  unfold threadStep at h
  cases hpc : fl.pc with
  | none => simp [hpc] at h
  | done => simp [hpc] at h
  | test =>
    simp only [hpc] at h
    obtain rfl := Option.some.inj h
    refine ⟨rfl, by simp [Ended, hpc], rfl, rfl, fun haccount => ?_⟩
    cases hrun : fl.run <;> simpa [Accounts, inHand, hpc] using haccount
  | wait =>
    simp only [hpc] at h
    obtain rfl := Option.some.inj h
    exact ⟨rfl, by simp [Ended, hpc], rfl, rfl,
      fun haccount => by simpa [Accounts, inHand, hpc] using haccount⟩
  | swap =>
    simp only [hpc] at h
    obtain rfl := Option.some.inj h
    exact ⟨rfl, by simp [Ended, hpc], rfl, rfl,
      fun haccount => by simpa [Accounts, inHand, hpc] using haccount⟩
  | handle msgs =>
    cases msgs with
    | nil =>
      simp only [hpc] at h
      obtain rfl := Option.some.inj h
      exact ⟨rfl, by simp [Ended, hpc], rfl, rfl,
        fun haccount => by simpa [Accounts, inHand, hpc] using haccount⟩
    | cons msg msgs =>
      simp only [hpc] at h
      obtain rfl := Option.some.inj h
      exact ⟨rfl, by simp [Ended, hpc], rfl, rfl,
        fun haccount => by simpa [Accounts, inHand, hpc] using haccount⟩

theorem stopStep_spec (h : fl.stopStep = some fl') :
    fl'.stop = fl.stop.next ∧ fl.stop ≠ .returned ∧ fl'.pc = fl.pc ∧ fl'.accepted = fl.accepted ∧
      (fl'.stop = .returned → fl'.Ended) ∧ (fl.Accounts → fl'.Accounts) := by
  unfold stopStep at h
  cases hstop : fl.stop with
  | notCalled =>
    simp only [hstop, Option.some.injEq] at h
    subst h
    exact ⟨rfl, by simp, rfl, rfl, fun hret => (by cases hret), fun haccount => haccount⟩
  | cleared =>
    simp only [hstop, Option.some.injEq] at h
    subst h
    exact ⟨rfl, by simp, rfl, rfl, fun hret => (by cases hret), fun haccount => haccount⟩
  | signalled =>
    simp only [hstop] at h
    split_ifs at h with hended
    obtain rfl := Option.some.inj h
    exact ⟨rfl, by simp, rfl, rfl, fun _ => hended, fun haccount => haccount⟩
  | returned =>
    simp only [hstop] at h
    cases h

/-- What had been accepted when `Stop` was called is set when it clears `_run`. -/
theorem stopStep_beforeStop (h : fl.stopStep = some fl') :
    fl'.beforeStop = if fl.stop = .notCalled then fl.accepted else fl.beforeStop := by
  unfold stopStep at h
  cases hstop : fl.stop with
  | notCalled =>
    simp only [hstop, Option.some.injEq] at h
    subst h
    rfl
  | cleared =>
    simp only [hstop, Option.some.injEq] at h
    subst h
    rfl
  | signalled =>
    simp only [hstop] at h
    split_ifs at h
    obtain rfl := Option.some.inj h
    rfl
  | returned =>
    simp only [hstop] at h
    cases h

theorem startAgain_spec (logs : Bool) (fl : FileLogger) :
    (fl.startAgain logs).stop = .notCalled ∧ (fl.startAgain logs).accepted = fl.accepted ∧
      (fl.Ended → fl.Accounts → (fl.startAgain logs).Accounts) := by
  unfold startAgain
  cases logs with
  | true =>
    refine ⟨rfl, rfl, fun hended haccount => ?_⟩
    have hhand := inHand_of_ended hended
    unfold Accounts at haccount ⊢
    rw [hhand] at haccount
    exact haccount
  | false => exact ⟨rfl, rfl, fun _ haccount => haccount⟩

/-- When `Stop` has returned, everything accepted before has been handed on. -/
theorem Draining.prefix_handed (h : fl.Draining) (hstop : fl.stop = .returned) :
    fl.beforeStop <+: fl.handed := by
  have hended : fl.Ended := h.joined hstop
  rcases h.drains (by rw [hstop]; simp) with hwait | hswap | hall
  · rcases hended with hpc | hpc <;> rw [hwait] at hpc <;> cases hpc
  · rcases hended with hpc | hpc <;> rw [hswap] at hpc <;> cases hpc
  · rwa [inHand_of_ended hended, List.append_nil] at hall

/-- A file logger that is started again has nothing left behind. -/
theorem draining_startAgain (h : fl.Draining) (hended : fl.Ended) (logs : Bool) :
    (fl.startAgain logs).Draining := by
  obtain ⟨hstop, -, haccounts⟩ := fl.startAgain_spec logs
  refine ⟨haccounts hended h.account, fun hnot => absurd hstop hnot, fun hnot => absurd hstop hnot,
    fun hret => ?_⟩
  rw [hstop] at hret
  cases hret

end FileLogger

/-! ### The multicast sender -/

namespace SenderThread

/-- The thread has ended, if there was one. -/
def Ended (st : SenderThread) : Prop := st.pc = .none ∨ st.pc = .done

variable {io : StreamIO} {Emitted : List Str → List Message → Prop}
  {sendPacket : SenderState → SenderState} {st st' : SenderThread}

/-- The packets hold, in order, some of the messages that have been accepted and are not in hand or
    in the queue. -/
def Sends (io : StreamIO) (Emitted : List Str → List Message → Prop) (st : SenderThread) : Prop :=
  ∃ taken b, Shows io Emitted st.sender b ∧
    st.accepted = taken ++ st.inHand ++ st.queue.entries ∧
    (b.closed.flatten ++ b.pending).Sublist taken

theorem inHand_of_ended (h : st.Ended) : st.inHand = [] := by
  unfold inHand
  rcases h with h | h <;> rw [h]

theorem process_spec (passes : Message → Bool) (st : SenderThread) (msg : Message) :
    (st.process passes msg).stop = st.stop ∧ (st.process passes msg).pc = st.pc ∧
      (st.process passes msg).accepted =
        st.accepted ++ if passes msg && (st.queue.pushBack msg).1 then [msg] else [] := by
  unfold process Queue.pushBack
  split_ifs <;> simp_all

theorem Sends.process (h : Sends io Emitted st) (passes : Message → Bool) (msg : Message) :
    Sends io Emitted (st.process passes msg) := by
  obtain ⟨taken, b, hshows, haccount, hsub⟩ := h
  unfold SenderThread.process Queue.pushBack
  split_ifs
  · refine ⟨taken, b, hshows, ?_, hsub⟩
    show st.accepted ++ [msg] = taken ++ st.inHand ++ (st.queue.entries ++ [msg])
    rw [haccount, List.append_assoc _ _ [msg]]
  · exact ⟨taken, b, hshows, haccount, hsub⟩
  · exact ⟨taken, b, hshows, haccount, hsub⟩

theorem stopStep_spec (h : st.stopStep = some st') :
    st'.stop = st.stop.next ∧ st.stop ≠ .returned ∧ st'.pc = st.pc ∧ st'.accepted = st.accepted ∧
      (st'.stop = .returned → st'.Ended) ∧ (Sends io Emitted st → Sends io Emitted st') := by
  unfold stopStep at h
  cases hstop : st.stop with
  | notCalled =>
    simp only [hstop, Option.some.injEq] at h
    subst h
    exact ⟨rfl, by simp, rfl, rfl, fun hret => (by cases hret), fun hsends => hsends⟩
  | cleared =>
    simp only [hstop, Option.some.injEq] at h
    subst h
    exact ⟨rfl, by simp, rfl, rfl, fun hret => (by cases hret), fun hsends => hsends⟩
  | signalled =>
    simp only [hstop] at h
    split_ifs at h with hended
    obtain rfl := Option.some.inj h
    exact ⟨rfl, by simp, rfl, rfl, fun _ => hended, fun hsends => hsends⟩
  | returned =>
    simp only [hstop] at h
    cases h

/-- **What a step of the thread does**, whatever its packet holds. -/
theorem threadStep_spec (hsend : SendsPacket io Emitted sendPacket) {ready : Bool}
    (h : st.threadStep io sendPacket false ready = some st') :
    st'.stop = st.stop ∧ ¬ st.Ended ∧ st'.accepted = st.accepted ∧
      (Sends io Emitted st → Sends io Emitted st') := by
  unfold threadStep at h
  cases hpc : st.pc with
  | none => simp [hpc] at h
  | done => simp [hpc] at h
  | test =>
    simp only [hpc, Bool.false_eq_true, if_false] at h
    split_ifs at h
    all_goals
      obtain rfl := Option.some.inj h
      refine ⟨rfl, by simp [Ended, hpc], rfl, fun hsends => ?_⟩
      obtain ⟨taken, b, hshows, haccount, hsub⟩ := hsends
      exact ⟨taken, b, hshows, by simpa [inHand, hpc] using haccount, hsub⟩
  | wait =>
    simp only [hpc] at h
    split_ifs at h
    all_goals
      obtain rfl := Option.some.inj h
      refine ⟨rfl, by simp [Ended, hpc], rfl, fun hsends => ?_⟩
      obtain ⟨taken, b, hshows, haccount, hsub⟩ := hsends
      exact ⟨taken, b, hshows, by simpa [inHand, hpc] using haccount, hsub⟩
  | pop =>
    simp only [hpc] at h
    cases hentries : st.queue.entries with
    | nil =>
      simp only [hentries, Option.some.injEq] at h
      subst h
      refine ⟨rfl, by simp [Ended, hpc], rfl, fun hsends => ?_⟩
      obtain ⟨taken, b, hshows, haccount, hsub⟩ := hsends
      exact ⟨taken, b, hshows, by simpa [inHand, hpc] using haccount, hsub⟩
    | cons msg msgs =>
      simp only [hentries, Option.some.injEq] at h
      subst h
      refine ⟨rfl, by simp [Ended, hpc], rfl, fun hsends => ?_⟩
      obtain ⟨taken, b, hshows, haccount, hsub⟩ := hsends
      exact ⟨taken, b, hshows, by simpa [inHand, hpc, hentries] using haccount, hsub⟩
  | add msg =>
    simp only [hpc, Option.some.injEq] at h
    subst h
    refine ⟨rfl, by simp [Ended, hpc], rfl, fun hsends => ?_⟩
    obtain ⟨taken, b, hshows, haccount, hsub⟩ := hsends
    refine ⟨taken ++ [msg], _, addOrSend_shows hsend hshows msg, ?_, ?_⟩
    · simpa [inHand, hpc] using haccount
    · rw [Batcher.flatten_step_item]
      refine hsub.append ?_
      split_ifs
      · exact List.Sublist.refl _
      · exact List.nil_sublist _
  | timedOut =>
    simp only [hpc, Option.some.injEq] at h
    subst h
    refine ⟨rfl, by simp [Ended, hpc], rfl, fun hsends => ?_⟩
    obtain ⟨taken, b, hshows, haccount, hsub⟩ := hsends
    refine ⟨taken, _, sendIfPayload_shows hsend hshows, by simpa [inHand, hpc] using haccount, ?_⟩
    simp only [Batcher.step]
    split_ifs
    · exact hsub
    · simpa using hsub

/-- A thread that is started again has an empty packet. -/
theorem openAgain_spec {pkt : Option MessagePacket}
    (hpkt : ∀ p ∈ pkt, p.buf.length = 1200 ∧ p.Holds []) (st : SenderThread) :
    (st.openAgain pkt).stop = .notCalled ∧ (st.openAgain pkt).accepted = st.accepted ∧
      (st.Ended → Sends io Emitted st → Sends io Emitted (st.openAgain pkt)) := by
  unfold openAgain
  cases pkt with
  | none => exact ⟨rfl, rfl, fun _ hsends => hsends⟩
  | some pkt =>
    refine ⟨rfl, rfl, fun hended hsends => ?_⟩
    obtain ⟨hsize, hholds⟩ := hpkt pkt rfl
    obtain ⟨taken, b, hshows, haccount, hsub⟩ := hsends
    rw [inHand_of_ended hended] at haccount
    refine ⟨taken, ⟨b.closed, []⟩, ⟨hsize, hholds, hshows.sent⟩, haccount, ?_⟩
    rw [List.append_nil]
    exact (List.sublist_append_left _ _).trans hsub

end SenderThread

end Mclog
