import Mclog.Equiv.Senders
import Mclog.General.Machine
import Mclog.Shutdown

/-!
# What has been sent when `Stop` returns

The messages accepted are those that the thread has dealt with, those it has in hand and those in the
queue, in this order, at every step.  When `_run` is cleared, the thread takes what is in the queue
only if it is past the test of `_run`; and a `MulticastSender` leaves the messages of the packet it
has not filled.  `shutdown_drains` says when nothing is lost: whenever `_run` is cleared at a moment
when no message is left behind.
-/

namespace Mclog

open General

/-! ### The file logger -/

namespace FileLogger

/-- The messages the thread has taken off the queue and not handed on. -/
def inHand (fl : FileLogger) : List Message :=
  match fl.pc with
  | .handle msgs => msgs
  | _ => []

/-- `Stop` clears `_run` at a moment when the thread will still take what is in the queue, or when
    there is nothing in it. -/
def StopsDrained (fl : FileLogger) : FileLoggerStep → Prop
  | .stop => fl.stop = .notCalled →
      fl.pc = .wait ∨ fl.pc = .swap ∨ fl.inQueue.entries = []
  | _ => True

instance (fl : FileLogger) (e : FileLoggerStep) : Decidable (fl.StopsDrained e) := by
  unfold StopsDrained
  split <;> infer_instance

/-- The invariant of a file logger. -/
structure Draining (fl : FileLogger) : Prop where
  account : fl.accepted = fl.handed ++ fl.inHand ++ fl.inQueue.entries
  before : fl.stop ≠ .notCalled → fl.run = false ∧ fl.beforeStop <+: fl.accepted
  /-- Once `_run` is cleared, the thread takes the queue or has taken all that counts. -/
  drains : fl.stop ≠ .notCalled →
    fl.pc = .wait ∨ fl.pc = .swap ∨ fl.beforeStop <+: fl.handed ++ fl.inHand
  joined : fl.stop = .returned → fl.pc = .none ∨ fl.pc = .done

theorem draining_start (logs : List LogFileConfig) : Draining (start logs) := by
  refine ⟨?_, fun h => absurd rfl h, fun h => absurd rfl h, fun h => by cases h⟩
  unfold start inHand
  cases logs <;> rfl

/-- A producer puts its message at the end. -/
theorem draining_process {fl : FileLogger} (h : fl.Draining) (msg : Message) :
    (fl.process msg).Draining := by
  unfold process Queue.pushBack
  split_ifs with hroom
  · refine ⟨?_, fun hstop => ⟨(h.before hstop).1, (h.before hstop).2.trans (List.prefix_append _ _)⟩,
      h.drains, h.joined⟩
    show fl.accepted ++ [msg] = fl.handed ++ fl.inHand ++ (fl.inQueue.entries ++ [msg])
    rw [h.account, List.append_assoc _ _ [msg]]
  · exact h

/-- The thread hands on what it takes, in order. -/
theorem draining_threadStep {fl fl' : FileLogger} (h : fl.Draining)
    (hstep : fl.threadStep = some fl') : fl'.Draining := by
  obtain ⟨run, inQueue, pc, stop, accepted, beforeStop, handed⟩ := fl
  obtain ⟨haccount, hbefore, hdrains, hjoined⟩ := h
  simp only [inHand] at haccount hbefore hdrains hjoined
  -- `Stop` returns only when the thread has ended.
  have hrunning : pc ≠ .none → pc ≠ .done → stop ≠ .returned :=
    fun hnone hdone hret => (hjoined hret).elim hnone hdone
  cases pc with
  | none => cases hstep
  | done => cases hstep
  | test =>
    obtain rfl := Option.some.inj hstep
    cases run with
    | true =>
      -- `_run` is still set, so `Stop` has not been called.
      have hnot : stop = .notCalled := by
        by_contra hstop
        exact absurd (hbefore hstop).1 (by decide)
      refine ⟨haccount, fun hstop => absurd hnot hstop, fun _ => Or.inl rfl, fun hret => ?_⟩
      exact absurd (hnot.symm.trans hret) (by decide)
    | false =>
      refine ⟨haccount, hbefore, fun hstop => ?_, fun _ => Or.inr rfl⟩
      rcases hdrains hstop with hwait | hswap | hall
      · cases hwait
      · cases hswap
      · exact Or.inr (Or.inr hall)
  | wait =>
    obtain rfl := Option.some.inj hstep
    exact ⟨haccount, hbefore, fun _ => Or.inr (Or.inl rfl),
      fun hret => absurd hret (hrunning nofun nofun)⟩
  | swap =>
    obtain rfl := Option.some.inj hstep
    rw [List.append_nil] at haccount
    refine ⟨?_, hbefore, fun hstop => Or.inr (Or.inr ?_), fun hret => ?_⟩
    · simpa [inHand] using haccount
    · show beforeStop <+: handed ++ inQueue.entries
      rw [← haccount]
      exact (hbefore hstop).2
    · exact absurd hret (hrunning nofun nofun)
  | handle msgs =>
    have hall : stop ≠ .notCalled → beforeStop <+: handed ++ msgs := by
      intro hstop
      rcases hdrains hstop with hwait | hswap | hall
      · cases hwait
      · cases hswap
      · exact hall
    have hret : stop ≠ .returned := hrunning nofun nofun
    cases msgs with
    | nil =>
      obtain rfl := Option.some.inj hstep
      exact ⟨haccount, hbefore, fun hstop => Or.inr (Or.inr (hall hstop)), fun h => absurd h hret⟩
    | cons msg msgs =>
      obtain rfl := Option.some.inj hstep
      refine ⟨?_, hbefore, fun hstop => Or.inr (Or.inr ?_), fun h => absurd h hret⟩
      · simpa [inHand] using haccount
      · simpa [inHand] using hall hstop

/-- `Stop` leaves nothing behind, if the moment is right. -/
theorem draining_stopStep {fl fl' : FileLogger} (h : fl.Draining) (hok : fl.StopsDrained .stop)
    (hstep : fl.stopStep = some fl') : fl'.Draining := by
  obtain ⟨haccount, hbefore, hdrains, hjoined⟩ := h
  unfold stopStep at hstep
  cases hstop : fl.stop with
  | notCalled =>
    simp only [hstop, Option.some.injEq] at hstep
    subst hstep
    refine ⟨haccount, fun _ => ⟨rfl, List.prefix_refl _⟩, fun _ => ?_, fun hret => by cases hret⟩
    rcases hok hstop with hwait | hswap | hempty
    · exact Or.inl hwait
    · exact Or.inr (Or.inl hswap)
    · refine Or.inr (Or.inr ?_)
      show fl.accepted <+: fl.handed ++ fl.inHand
      rw [haccount, hempty, List.append_nil]
  | cleared =>
    simp only [hstop, Option.some.injEq] at hstep
    subst hstep
    have hcalled : fl.stop ≠ .notCalled := by rw [hstop]; decide
    exact ⟨haccount, fun _ => hbefore hcalled, fun _ => hdrains hcalled, fun hret => by cases hret⟩
  | signalled =>
    simp only [hstop] at hstep
    split_ifs at hstep with hdone
    obtain rfl := Option.some.inj hstep
    have hcalled : fl.stop ≠ .notCalled := by rw [hstop]; decide
    exact ⟨haccount, fun _ => hbefore hcalled, fun _ => hdrains hcalled, fun _ => hdone⟩
  | returned =>
    simp only [hstop] at hstep
    cases hstep

/-- When `Stop` has returned, everything accepted before has been handed on. -/
theorem handed_of_reachable {logs : List LogFileConfig} {fl : FileLogger}
    (hfl : Reachable step StopsDrained (start logs) fl) (hstop : fl.stop = .returned) :
    fl.beforeStop <+: fl.handed := by
  have h : fl.Draining := by
    refine hfl.invariant (draining_start logs) ?_
    rintro fl e fl' - h hok hstep
    cases e with
    | process msg =>
      obtain rfl := Option.some.inj hstep
      exact draining_process h msg
    | thread => exact draining_threadStep h hstep
    | stop => exact draining_stopStep h hok hstep
  have hcalled : fl.stop ≠ .notCalled := by rw [hstop]; decide
  have hout : fl.pc = .none ∨ fl.pc = .done := h.joined hstop
  rcases h.drains hcalled with hwait | hswap | hall
  · rcases hout with h | h <;> rw [hwait] at h <;> cases h
  · rcases hout with h | h <;> rw [hswap] at h <;> cases h
  · have hhand : fl.inHand = [] := by
      rcases hout with h | h <;> simp [inHand, h]
    rwa [hhand, List.append_nil] at hall

end FileLogger

/-! ### The senders -/

namespace SenderThread

section

variable (io : StreamIO) (sendPacket : SenderState → SenderState) (flushes : Bool)

/-- The message the thread has taken off the queue and not added to its packet. -/
def inHand (st : SenderThread) : List Message :=
  match st.pc with
  | .add msg => [msg]
  | _ => []

/-- The message does not fit a packet. -/
def TooLong (msg : Message) : Prop := payloadCapacity < encodedSize io msg

instance (msg : Message) : Decidable (TooLong io msg) := by
  unfold TooLong
  infer_instance

/-- The packet will be empty when the messages have been added: the last of them is too long for a
    packet, or there are none and it is empty now. -/
def LeavesEmpty (pkt : MessagePacket) (msgs : List Message) : Prop :=
  match msgs.getLast? with
  | some msg => TooLong io msg
  | none => pkt.hasPayload = false

/-- `Stop` clears `_run` at a moment when the thread, if it is past the test of `_run`, will leave
    nothing in its packet after taking what is in the queue, or flushes it; and otherwise nothing is
    left in the queue, or in a packet that it will not flush. -/
def StopsDrained (st : SenderThread) : SenderStep → Prop
  | .stop => st.stop = .notCalled →
      match st.pc with
      | .wait | .pop | .add _ =>
          flushes = true ∨ LeavesEmpty io st.sender.pkt (st.inHand ++ st.queue.entries)
      | .timedOut => ∀ msg ∈ st.queue.entries, TooLong io msg
      | .test => (∀ msg ∈ st.queue.entries, TooLong io msg) ∧
          (flushes = true ∨ st.sender.pkt.hasPayload = false)
      | .none | .done => (∀ msg ∈ st.queue.entries, TooLong io msg) ∧
          st.sender.pkt.hasPayload = false
  | _ => True

/-- The messages that fit a packet. -/
def fitting (msgs : List Message) : List Message :=
  msgs.filter fun msg => encodedSize io msg ≤ payloadCapacity

/-- What will have been sent if the thread leaves the loop now. -/
def sentAtExit (b : Batcher Message) : List Message :=
  b.closed.flatten ++ if flushes then b.pending else []

/-- The batcher's step, for messages. -/
abbrev batch (b : Batcher Message) (e : BatchEvent Message) : Batcher Message :=
  Batcher.step (encodedSize io) payloadCapacity b e

/-- The messages `msgs` will have been sent when the thread ends, wherever it is. -/
def Covers (st : SenderThread) (b : Batcher Message) (msgs : List Message) : Prop :=
  match st.pc with
  | .wait | .pop | .add _ => ∃ rest, rest <+: st.inHand ++ st.queue.entries ∧
      msgs <+: sentAtExit flushes ((rest.map BatchEvent.item).foldl (batch io) b)
  | .timedOut => msgs <+: sentAtExit flushes (batch io b .flush)
  | .test => msgs <+: sentAtExit flushes b
  | .none | .done => msgs <+: b.closed.flatten

theorem prefix_sentAtExit (b : Batcher Message) (e : BatchEvent Message) :
    sentAtExit flushes b <+: sentAtExit flushes (batch io b e) := by
  unfold sentAtExit
  cases flushes with
  | true => exact Batcher.prefix_flatten_step _ _ b e
  | false =>
    simp only [Bool.false_eq_true, if_false, List.append_nil]
    exact Batcher.prefix_closed_step _ _ b e

variable (Emitted : List Str → List Message → Prop)

/-- The invariant of a sender: its packets show a batcher for the messages taken, and once `_run` is
    cleared those that count will have been sent. -/
structure Draining (st : SenderThread) : Prop where
  account : ∃ es, Shows io Emitted st.sender (Batcher.run (encodedSize io) payloadCapacity es) ∧
    st.accepted = es.filterMap BatchEvent.item? ++ st.inHand ++ st.queue.entries ∧
    (st.stop ≠ .notCalled → Covers io flushes st
      (Batcher.run (encodedSize io) payloadCapacity es) (fitting io st.beforeStop))
  before : st.stop ≠ .notCalled → st.run = false
  joined : st.stop = .returned → st.pc = .none ∨ st.pc = .done

variable {io sendPacket flushes Emitted}

/-- A packet has a payload exactly when a batch is pending. -/
theorem hasPayload_iff {s : SenderState} {b : Batcher Message} (h : Shows io Emitted s b) :
    s.pkt.hasPayload = false ↔ b.pending = [] := by
  have hpay : s.pkt.hasPayload = true ↔ b.pending ≠ [] :=
    h.holds.hasPayload.trans (encodeBatch_ne_nil_iff io b.pending)
  rw [← Bool.not_eq_true, hpay, not_not]

/-- What the packet holds when the messages have been added. -/
theorem hasPayload_foldl_iff (hsend : SendsPacket io Emitted sendPacket) {s : SenderState}
    {b : Batcher Message} (h : Shows io Emitted s b) (msgs : List Message) :
    (msgs.foldl (addOrSend io sendPacket) s).pkt.hasPayload = false ↔
      LeavesEmpty io s.pkt msgs := by
  have hafter := wakeUp_shows hsend h (.ready msgs)
  rw [show msgs.foldl (addOrSend io sendPacket) s = wakeUp io sendPacket s (.ready msgs) from rfl,
    hasPayload_iff hafter]
  show ((msgs.map BatchEvent.item).foldl _ b).pending = [] ↔ _
  rw [Batcher.pending_foldl_items_eq_nil_iff]
  unfold LeavesEmpty
  cases msgs.getLast? with
  | some msg => exact Iff.rfl
  | none => exact (hasPayload_iff h).symm

theorem draining_start (maxLength : Option Nat) {pkt : MessagePacket}
    (hsize : pkt.buf.length = 1200) (hholds : pkt.Holds []) (started : Bool) :
    Draining io flushes Emitted (start maxLength pkt started) := by
  refine ⟨⟨[], ⟨hsize, hholds, .nil⟩, ?_, fun h => absurd rfl h⟩, fun h => absurd rfl h,
    fun h => by cases h⟩
  cases started <;> rfl

/-- A producer puts its message at the end. -/
theorem draining_process {passes : Message → Bool} {st : SenderThread}
    (h : Draining io flushes Emitted st) (msg : Message) :
    Draining io flushes Emitted (st.process passes msg) := by
  obtain ⟨run, queue, pc, sender, stop, accepted, beforeStop⟩ := st
  obtain ⟨⟨es, hshows, haccount, hcovers⟩, hbefore, hjoined⟩ := h
  unfold process Queue.pushBack
  split_ifs with hpasses hroom
  · refine ⟨⟨es, hshows, ?_, fun hstop => ?_⟩, hbefore, hjoined⟩
    · show accepted ++ [msg] = _ ++ _ ++ (queue.entries ++ [msg])
      rw [← List.append_assoc]
      exact congrArg (· ++ [msg]) haccount
    · have hcovers := hcovers hstop
      -- The messages still to be taken are a prefix of a longer list.
      cases pc with
      | none => exact hcovers
      | test => exact hcovers
      | timedOut => exact hcovers
      | done => exact hcovers
      | wait =>
        obtain ⟨rest, hrest, hmsgs⟩ := hcovers
        exact ⟨rest, hrest.trans (List.prefix_append _ _), hmsgs⟩
      | pop =>
        obtain ⟨rest, hrest, hmsgs⟩ := hcovers
        exact ⟨rest, hrest.trans (List.prefix_append _ _), hmsgs⟩
      | add msg' =>
        obtain ⟨rest, hrest, hmsgs⟩ := hcovers
        refine ⟨rest, hrest.trans ?_, hmsgs⟩
        show [msg'] ++ queue.entries <+: [msg'] ++ (queue.entries ++ [msg])
        rw [← List.append_assoc]
        exact List.prefix_append _ _
  · exact ⟨⟨es, hshows, haccount, hcovers⟩, hbefore, hjoined⟩
  · exact ⟨⟨es, hshows, haccount, hcovers⟩, hbefore, hjoined⟩

/-- The thread packs what it takes, in order. -/
theorem draining_threadStep (hsend : SendsPacket io Emitted sendPacket) {st st' : SenderThread}
    {ready : Bool} (h : Draining io flushes Emitted st)
    (hstep : st.threadStep io sendPacket flushes ready = some st') :
    Draining io flushes Emitted st' := by
  obtain ⟨run, queue, pc, sender, stop, accepted, beforeStop⟩ := st
  obtain ⟨⟨es, hshows, haccount, hcovers⟩, hbefore, hjoined⟩ := h
  -- `Stop` returns only when the thread has ended.
  have hrunning : pc ≠ .none → pc ≠ .done → stop ≠ .returned :=
    fun hnone hdone hret => (hjoined hret).elim hnone hdone
  cases pc with
  | none => cases hstep
  | done => cases hstep
  | test =>
    cases run with
    | true =>
      -- `_run` is still set, so `Stop` has not been called.
      obtain rfl := Option.some.inj hstep
      have hnot : stop = .notCalled := by
        by_contra hstop
        exact Bool.noConfusion (hbefore hstop)
      refine ⟨⟨es, hshows, haccount, fun hstop => absurd hnot hstop⟩, fun hstop => absurd hnot hstop,
        fun hret => ?_⟩
      exact absurd (hnot.symm.trans hret) (by decide)
    | false =>
      obtain rfl := Option.some.inj hstep
      cases flushes with
      | true =>
        refine ⟨⟨es ++ [.flush], ?_, ?_, fun hstop => ?_⟩, hbefore, fun _ => Or.inr rfl⟩
        · rw [Batcher.run_concat]
          exact sendIfPayload_shows hsend hshows
        · rw [List.filterMap_append, List.filterMap_cons_none rfl, List.filterMap_nil,
            List.append_nil]
          exact haccount
        · show _ <+: (Batcher.run _ _ (es ++ [.flush])).closed.flatten
          rw [Batcher.run_concat, Batcher.closed_step_flush]
          exact hcovers hstop
      | false =>
        refine ⟨⟨es, hshows, haccount, fun hstop => ?_⟩, hbefore, fun _ => Or.inr rfl⟩
        simpa [Covers, sentAtExit] using hcovers hstop
  | wait =>
    have hret : stop ≠ .returned := hrunning (by simp) (by simp)
    simp only [threadStep] at hstep
    split_ifs at hstep with hready hempty
    · obtain rfl := Option.some.inj hstep
      exact ⟨⟨es, hshows, haccount, hcovers⟩, hbefore, fun h => absurd h hret⟩
    · -- It times out: nothing is to be taken.
      obtain rfl := Option.some.inj hstep
      refine ⟨⟨es, hshows, haccount, fun hstop => ?_⟩, hbefore, fun h => absurd h hret⟩
      obtain ⟨rest, hrest, hmsgs⟩ := hcovers hstop
      have hnil : rest = [] := by simpa [inHand, hempty] using hrest
      subst hnil
      exact hmsgs.trans (prefix_sentAtExit io flushes _ _)
  | pop =>
    have hret : stop ≠ .returned := hrunning (by simp) (by simp)
    obtain ⟨entries, maxLength⟩ := queue
    cases entries with
    | nil =>
      obtain rfl := Option.some.inj hstep
      refine ⟨⟨es, hshows, haccount, fun hstop => ?_⟩, hbefore, fun h => absurd h hret⟩
      obtain ⟨rest, hrest, hmsgs⟩ := hcovers hstop
      have hnil : rest = [] := by simpa [inHand] using hrest
      subst hnil
      exact hmsgs
    | cons msg msgs =>
      obtain rfl := Option.some.inj hstep
      refine ⟨⟨es, hshows, ?_, hcovers⟩, hbefore, fun h => absurd h hret⟩
      simpa [inHand] using haccount
  | add msg =>
    have hret : stop ≠ .returned := hrunning (by simp) (by simp)
    obtain rfl := Option.some.inj hstep
    refine ⟨⟨es ++ [.item msg], ?_, ?_, fun hstop => ?_⟩, hbefore, fun h => absurd h hret⟩
    · rw [Batcher.run_concat]
      exact addOrSend_shows hsend hshows msg
    · simpa [inHand, BatchEvent.item?] using haccount
    · obtain ⟨rest, hrest, hmsgs⟩ := hcovers hstop
      rw [Batcher.run_concat]
      cases rest with
      | nil => exact ⟨[], List.nil_prefix, hmsgs.trans (prefix_sentAtExit io flushes _ _)⟩
      | cons msg' rest =>
        obtain ⟨rfl, hrest'⟩ : msg' = msg ∧ rest <+: queue.entries := by
          simpa [inHand, List.cons_prefix_cons] using hrest
        exact ⟨rest, hrest', hmsgs⟩
  | timedOut =>
    have hret : stop ≠ .returned := hrunning (by simp) (by simp)
    obtain rfl := Option.some.inj hstep
    refine ⟨⟨es ++ [.flush], ?_, ?_, fun hstop => ?_⟩, hbefore, fun h => absurd h hret⟩
    · rw [Batcher.run_concat]
      exact sendIfPayload_shows hsend hshows
    · rw [List.filterMap_append, List.filterMap_cons_none rfl, List.filterMap_nil, List.append_nil]
      exact haccount
    · rw [Batcher.run_concat]
      exact hcovers hstop

/-- Messages too long for a packet do not count. -/
theorem fitting_append_of_tooLong (msgs rest : List Message) (h : ∀ msg ∈ rest, TooLong io msg) :
    fitting io (msgs ++ rest) = fitting io msgs := by
  have hnone : fitting io rest = [] := by
    refine List.filter_eq_nil_iff.mpr fun msg hmsg => ?_
    have hlong : payloadCapacity < encodedSize io msg := h msg hmsg
    simpa using hlong
  rw [fitting, List.filter_append]
  exact (congrArg _ hnone).trans (List.append_nil _)

/-- The messages taken that fit a packet are those in batches. -/
theorem fitting_taken (es : List (BatchEvent Message)) :
    fitting io (es.filterMap BatchEvent.item?) =
      (Batcher.run (encodedSize io) payloadCapacity es).closed.flatten ++
        (Batcher.run (encodedSize io) payloadCapacity es).pending :=
  (Batcher.run_flatten _ _ es).symm

/-- **Clearing `_run` at a good moment** leaves nothing behind. -/
theorem covers_of_stopsDrained (hsend : SendsPacket io Emitted sendPacket) {st : SenderThread}
    (hnot : st.stop = .notCalled) (hok : StopsDrained io flushes st .stop)
    {es : List (BatchEvent Message)}
    (hshows : Shows io Emitted st.sender (Batcher.run (encodedSize io) payloadCapacity es))
    (haccount : st.accepted =
      es.filterMap BatchEvent.item? ++ st.inHand ++ st.queue.entries) :
    Covers io flushes st (Batcher.run (encodedSize io) payloadCapacity es)
      (fitting io st.accepted) := by
  have hgood := hok hnot
  -- What the thread has in its loop, it takes.
  have htaken : (flushes = true ∨
      LeavesEmpty io st.sender.pkt (st.inHand ++ st.queue.entries)) →
      ∃ rest, rest <+: st.inHand ++ st.queue.entries ∧ fitting io st.accepted <+:
        sentAtExit flushes ((rest.map BatchEvent.item).foldl (batch io)
          (Batcher.run (encodedSize io) payloadCapacity es)) := by
    intro hleft
    refine ⟨_, List.prefix_refl _, ?_⟩
    have hafter := wakeUp_shows hsend hshows (.ready (st.inHand ++ st.queue.entries))
    have hrun : ((st.inHand ++ st.queue.entries).map BatchEvent.item).foldl (batch io)
        (Batcher.run (encodedSize io) payloadCapacity es) =
        Batcher.run (encodedSize io) payloadCapacity
          (es ++ (st.inHand ++ st.queue.entries).map .item) := by
      rw [Batcher.run, Batcher.run, List.foldl_append]
    have hitems : (es ++ (st.inHand ++ st.queue.entries).map BatchEvent.item).filterMap
        BatchEvent.item? = st.accepted := by
      rw [haccount, List.filterMap_append, List.filterMap_map, List.append_assoc]
      congr 1
      exact List.filterMap_some
    have hall : fitting io _ = _ :=
      fitting_taken (es ++ (st.inHand ++ st.queue.entries).map .item)
    rw [hitems] at hall
    rw [hrun, hall]
    unfold sentAtExit
    rcases hleft with rfl | hempty
    · exact List.prefix_refl _
    · have hnil : (Batcher.run (encodedSize io) payloadCapacity
          (es ++ (st.inHand ++ st.queue.entries).map .item)).pending = [] := by
        rw [← hrun]
        exact (hasPayload_iff hafter).mp ((hasPayload_foldl_iff hsend hshows _).mpr hempty)
      rw [hnil, List.append_nil]
      exact List.prefix_append _ _
  -- Elsewhere what is in the queue does not count.
  have hqueue : st.inHand = [] → (∀ msg ∈ st.queue.entries, TooLong io msg) →
      fitting io st.accepted = (Batcher.run (encodedSize io) payloadCapacity es).closed.flatten ++
        (Batcher.run (encodedSize io) payloadCapacity es).pending := by
    intro hhand hlong
    rw [haccount, hhand, List.append_nil, fitting_append_of_tooLong _ _ hlong, fitting_taken]
  obtain ⟨run, queue, pc, sender, stop, accepted, beforeStop⟩ := st
  cases pc with
  | wait => exact htaken hgood
  | pop => exact htaken hgood
  | add msg => exact htaken hgood
  | timedOut =>
    show fitting io accepted <+: sentAtExit flushes (batch io _ .flush)
    rw [hqueue rfl hgood, ← Batcher.closed_step_flush]
    exact List.prefix_append _ _
  | test =>
    obtain ⟨hlong, hleft⟩ := hgood
    show fitting io accepted <+: sentAtExit flushes _
    rw [hqueue rfl hlong]
    unfold sentAtExit
    rcases hleft with rfl | hempty
    · exact List.prefix_refl _
    · rw [(hasPayload_iff hshows).mp hempty, List.append_nil]
      exact List.prefix_append _ _
  | none =>
    obtain ⟨hlong, hempty⟩ := hgood
    show fitting io accepted <+: _
    rw [hqueue rfl hlong, (hasPayload_iff hshows).mp hempty, List.append_nil]
  | done =>
    obtain ⟨hlong, hempty⟩ := hgood
    show fitting io accepted <+: _
    rw [hqueue rfl hlong, (hasPayload_iff hshows).mp hempty, List.append_nil]

/-- `Stop` leaves nothing behind, if the moment is right. -/
theorem draining_stopStep (hsend : SendsPacket io Emitted sendPacket) {st st' : SenderThread}
    (h : Draining io flushes Emitted st) (hok : StopsDrained io flushes st .stop)
    (hstep : st.stopStep = some st') : Draining io flushes Emitted st' := by
  obtain ⟨⟨es, hshows, haccount, hcovers⟩, hbefore, hjoined⟩ := h
  unfold stopStep at hstep
  cases hstop : st.stop with
  | notCalled =>
    simp only [hstop, Option.some.injEq] at hstep
    subst hstep
    exact ⟨⟨es, hshows, haccount,
      fun _ => covers_of_stopsDrained hsend hstop hok hshows haccount⟩, fun _ => rfl,
      fun hret => by cases hret⟩
  | cleared =>
    simp only [hstop, Option.some.injEq] at hstep
    subst hstep
    have hcalled : st.stop ≠ .notCalled := by rw [hstop]; decide
    exact ⟨⟨es, hshows, haccount, fun _ => hcovers hcalled⟩, fun _ => hbefore hcalled,
      fun hret => by cases hret⟩
  | signalled =>
    simp only [hstop] at hstep
    split_ifs at hstep with hdone
    obtain rfl := Option.some.inj hstep
    have hcalled : st.stop ≠ .notCalled := by rw [hstop]; decide
    exact ⟨⟨es, hshows, haccount, fun _ => hcovers hcalled⟩, fun _ => hbefore hcalled,
      fun _ => hdone⟩
  | returned =>
    simp only [hstop] at hstep
    cases hstep

/-- When `Stop` has returned, everything accepted before that fits a packet has been sent. -/
theorem sent_of_reachable (hsend : SendsPacket io Emitted sendPacket) {passes : Message → Bool}
    {maxLength : Option Nat} {pkt : MessagePacket} (hsize : pkt.buf.length = 1200)
    (hholds : pkt.Holds []) {started : Bool} {st : SenderThread}
    (hst : Reachable (step io sendPacket flushes passes) (StopsDrained io flushes)
      (start maxLength pkt started) st) (hstop : st.stop = .returned) :
    ∃ batches, List.Forall₂ Emitted st.sender.sent batches ∧
      fitting io st.beforeStop <+: batches.flatten := by
  have h : Draining io flushes Emitted st := by
    refine hst.invariant (draining_start maxLength hsize hholds started) ?_
    rintro st e st' - h hok hstep
    cases e with
    | process msg =>
      obtain rfl := Option.some.inj hstep
      exact draining_process h msg
    | thread ready => exact draining_threadStep hsend h hstep
    | stop => exact draining_stopStep hsend h hok hstep
  obtain ⟨es, hshows, -, hcovers⟩ := h.account
  refine ⟨_, hshows.sent, ?_⟩
  have hcovered := hcovers (by rw [hstop]; decide)
  unfold Covers at hcovered
  rcases h.joined hstop with hpc | hpc <;> rw [hpc] at hcovered <;> exact hcovered

end

end SenderThread

/-! ### The three sinks -/

/-- **A shutdown at a good moment drains the accepted messages.**  In every run of a `FileLogger`, a
    `LoopbackSender` and a `MulticastSender` in which `_run` is cleared at such a moment, when
    `Stop` has returned the messages accepted before have been handed to `LogFiles::Process`, and
    sent in packets if they fit one. -/
theorem shutdown_drains (io : StreamIO) (aead : Aead) (sender : MulticastSender)
    (passes : Message → Bool) (buf : Vector UInt8 1200) (pkt : MessagePacket)
    (hpkt : MessagePacket.ofBuf buf.toList = some pkt) :
    (∀ logs fl,
      Reachable FileLogger.step FileLogger.StopsDrained (FileLogger.start logs) fl →
      fl.stop = .returned → fl.beforeStop <+: fl.handed) ∧
    (∀ started st,
      Reachable (LoopbackSender.step io)
        (SenderThread.StopsDrained io true)
        (LoopbackSender.start pkt started) st →
      st.stop = .returned → ∃ batches, List.Forall₂ (PlainDatagram io) st.sender.sent batches ∧
        SenderThread.fitting io st.beforeStop <+: batches.flatten) ∧
    ∀ started st,
      Reachable (sender.step io aead passes)
        (SenderThread.StopsDrained io false)
        (MulticastSender.start pkt started) st →
      st.stop = .returned →
        ∃ batches, List.Forall₂ (SealedDatagrams io aead sender) st.sender.sent batches ∧
          SenderThread.fitting io st.beforeStop <+: batches.flatten := by
  obtain ⟨hholds, hbuf⟩ := MessagePacket.holds_ofBuf hpkt
  have hsize : pkt.buf.length = 1200 := by
    rw [hbuf]
    simp
  refine ⟨fun logs fl hfl hstop => ?_, fun started st hst hstop => ?_,
    fun started st hst hstop => ?_⟩
  · exact FileLogger.handed_of_reachable hfl hstop
  · exact SenderThread.sent_of_reachable (LoopbackSender.sendsPacket io) hsize hholds hst hstop
  · exact SenderThread.sent_of_reachable (MulticastSender.sendsPacket io aead sender) hsize hholds
      hst hstop

/-- A message that fits a packet. -/
def shortMessage : Message := messageOf ⟨str "host", length_host_le⟩ ⟨str "text", length_text_le⟩

/-- A packet of zeros. -/
def zeroPacket : Option MessagePacket := MessagePacket.ofBuf (List.replicate 1200 0)

/-- Threads that wait when `Stop` is called, with a message in the queue, and a multicast sender that
    has not been started. -/
theorem shutdown_drains_waiting :
    ∃ pkt, MessagePacket.ofBuf (Vector.replicate 1200 (0 : UInt8)).toList = some pkt ∧
      (∃ fl, Reachable FileLogger.step FileLogger.StopsDrained (FileLogger.start [{}]) fl ∧
        fl.stop = .returned ∧ fl.beforeStop = [shortMessage] ∧ fl.beforeStop <+: fl.handed) ∧
      (∃ st, Reachable (LoopbackSender.step prefixedStreams)
          (SenderThread.StopsDrained prefixedStreams true)
          (LoopbackSender.start pkt true) st ∧
        st.stop = .returned ∧ st.beforeStop = [shortMessage] ∧
        ∃ batches, List.Forall₂ (PlainDatagram prefixedStreams) st.sender.sent batches ∧
          SenderThread.fitting prefixedStreams st.beforeStop <+: batches.flatten) ∧
      ∃ st, Reachable (oneSocketSender.step prefixedStreams tagAead fun _ => true)
          (SenderThread.StopsDrained prefixedStreams false)
          (MulticastSender.start pkt false) st ∧
        st.stop = .returned ∧
        ∃ batches,
          List.Forall₂ (SealedDatagrams prefixedStreams tagAead oneSocketSender) st.sender.sent
            batches ∧
          SenderThread.fitting prefixedStreams st.beforeStop <+: batches.flatten := by
  have hmin : k_minPacketLen < (Vector.replicate 1200 (0 : UInt8)).toList.length := by
    rw [Vector.length_toList]
    decide
  obtain ⟨pkt, hpkt⟩ :=
    Option.isSome_iff_exists.mp ((MessagePacket.ofBuf_isSome_iff _).mpr hmin)
  obtain ⟨hfile, hloopback, hmulticast⟩ := shutdown_drains prefixedStreams tagAead oneSocketSender
    (fun _ => true) (Vector.replicate 1200 0) pkt hpkt
  -- The file logger waits when its message is queued and `_run` is cleared.
  have hfl : Reachable FileLogger.step FileLogger.StopsDrained (FileLogger.start [{}]) _ :=
    (((((((((Reachable.init.step (i := FileLoggerStep.thread) trivial rfl).step
      (i := FileLoggerStep.process shortMessage) trivial rfl).step
      (i := FileLoggerStep.stop) (fun _ => Or.inl rfl) rfl).step
      (i := FileLoggerStep.thread) trivial rfl).step (i := FileLoggerStep.thread) trivial rfl).step
      (i := FileLoggerStep.thread) trivial rfl).step (i := FileLoggerStep.thread) trivial rfl).step
      (i := FileLoggerStep.thread) trivial rfl).step
      (i := FileLoggerStep.stop) (fun h => by cases h) rfl).step
      (i := FileLoggerStep.stop) (fun h => by cases h) rfl
  -- So does the loopback sender.
  have hst : Reachable (LoopbackSender.step prefixedStreams)
      (SenderThread.StopsDrained prefixedStreams true)
      (LoopbackSender.start pkt true) _ :=
    (((((((((Reachable.init.step (i := SenderStep.thread true) trivial rfl).step
      (i := SenderStep.process shortMessage) trivial rfl).step
      (i := SenderStep.stop) (fun _ => Or.inl rfl) rfl).step
      (i := SenderStep.thread true) trivial rfl).step (i := SenderStep.thread true) trivial rfl).step
      (i := SenderStep.thread true) trivial rfl).step (i := SenderStep.thread true) trivial rfl).step
      (i := SenderStep.thread true) trivial rfl).step
      (i := SenderStep.stop) (fun h => by cases h) rfl).step
      (i := SenderStep.stop) (fun h => by cases h) rfl
  have hempty : pkt.hasPayload = false := by
    have hpay := (MessagePacket.holds_ofBuf hpkt).1.hasPayload
    simpa using hpay
  have hidle : Reachable (oneSocketSender.step prefixedStreams tagAead fun _ => true)
      (SenderThread.StopsDrained prefixedStreams false)
      (MulticastSender.start pkt false) _ :=
    ((Reachable.init.step (i := SenderStep.stop)
      (fun _ => ⟨fun msg hmsg => (by cases hmsg), hempty⟩) rfl).step
      (i := SenderStep.stop) (fun h => by cases h) rfl).step
      (i := SenderStep.stop) (fun h => by cases h) rfl
  exact ⟨pkt, hpkt, ⟨_, hfl, rfl, rfl, hfile _ _ hfl rfl⟩,
    ⟨_, hst, rfl, rfl, hloopback _ _ hst rfl⟩, ⟨_, hidle, rfl, hmulticast _ _ hidle rfl⟩⟩

/-- **A shutdown at a bad moment loses accepted messages.**  A file logger and a loopback sender
    whose thread is about to test `_run` leave the queue as it is; a multicast sender whose thread
    has put the message into its packet does not send the packet. -/
theorem shutdown_loses :
    ([FileLoggerStep.process shortMessage, .stop, .thread, .stop, .stop].foldlM FileLogger.step
        (FileLogger.start [{}])).map (fun fl => (fl.stop, fl.beforeStop, fl.handed)) =
      some (.returned, [shortMessage], []) ∧
    (zeroPacket.bind fun pkt =>
        ([SenderStep.process shortMessage, .stop, .thread true, .stop, .stop].foldlM
          (LoopbackSender.step prefixedStreams) (LoopbackSender.start pkt true))).map
        (fun st => (st.stop, st.beforeStop, st.sender.sent)) =
      some (.returned, [shortMessage], []) ∧
    (zeroPacket.bind fun pkt =>
        ([SenderStep.process shortMessage, .thread true, .thread true, .thread true, .thread true,
          .stop, .thread true, .thread true, .stop, .stop].foldlM
          (oneSocketSender.step prefixedStreams tagAead fun _ => true)
          (MulticastSender.start pkt true))).map
        (fun st => (st.stop, st.beforeStop, st.sender.sent)) =
      some (.returned, [shortMessage], []) ∧
    SenderThread.fitting prefixedStreams [shortMessage] = [shortMessage] := by
  exact ⟨by decide, by decide +kernel, by decide +kernel, by decide⟩

end Mclog
