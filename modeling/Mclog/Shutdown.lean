import Mclog.Config
import Mclog.Senders

/-!
# Queues, threads and how they stop

`FileLogger`, `LoopbackSender` and `MulticastSender` put the messages they accept on a queue that a
thread of their own empties.  `Stop` (of a `MulticastSender`, `Close`) clears `_run`, signals the
queue and joins the thread.  Producers, the thread and the caller of `Stop` take their steps in any
order.
-/

namespace Mclog

/-- Where the caller of `Stop` is. -/
inductive StopPhase where
  | notCalled
  | cleared
  | signalled
  | returned
deriving DecidableEq

/-! ### The file logger -/

/-- Where `FileLogger::Run` is: before the test of `_run`, in `ConditionWait`, before the swap, in
    the loop over the messages swapped, or at its end.  `none` is a thread that has not been
    started. -/
inductive FileLoggerPc where
  | none
  | test
  | wait
  | swap
  | handle (msgs : List Message)
  | done
deriving DecidableEq

/-- `FileLogger`, with the messages that `Process` has returned true for, those of them from before
    `Stop` was called, and the messages handed to `LogFiles::Process`. -/
structure FileLogger where
  run : Bool
  inQueue : Queue Message
  pc : FileLoggerPc
  stop : StopPhase := .notCalled
  accepted : List Message := []
  beforeStop : List Message := []
  handed : List Message := []

/-- A step of a producer, of the thread or of the caller of `Stop`. -/
inductive FileLoggerStep where
  | process (msg : Message)
  | thread
  | stop

namespace FileLogger

/-- After `Start`, which starts no thread when no logs are configured. -/
def start (logs : List LogFileConfig) : FileLogger where
  run := !logs.isEmpty
  inQueue := { maxLength := some 1000 }
  pc := if logs.isEmpty then .none else .test

/-- `Process`. -/
def process (fl : FileLogger) (msg : Message) : FileLogger :=
  let (rc, inQueue) := fl.inQueue.pushBack msg
  { fl with inQueue, accepted := if rc then fl.accepted ++ [msg] else fl.accepted }

/-- A step of `Run`.  `ConditionWait` may return at any time. -/
def threadStep (fl : FileLogger) : Option FileLogger :=
  match fl.pc with
  | .none => none
  | .test => some { fl with pc := if fl.run then .wait else .done }
  | .wait => some { fl with pc := .swap }
  | .swap => some { fl with
      inQueue := { fl.inQueue with entries := [] }
      pc := .handle fl.inQueue.entries }
  | .handle [] => some { fl with pc := .test }
  | .handle (msg :: msgs) => some { fl with pc := .handle msgs, handed := fl.handed ++ [msg] }
  | .done => none

/-- A step of `Stop`: it clears `_run`, signals the queue, and joins the thread if there is one. -/
def stopStep (fl : FileLogger) : Option FileLogger :=
  match fl.stop with
  | .notCalled => some { fl with run := false, stop := .cleared, beforeStop := fl.accepted }
  | .cleared => some { fl with stop := .signalled }
  | .signalled =>
    if fl.pc = .none ∨ fl.pc = .done then some { fl with stop := .returned } else none
  | .returned => none

/-- A step; `none` when it cannot be taken. -/
def step (fl : FileLogger) : FileLoggerStep → Option FileLogger
  | .process msg => some (fl.process msg)
  | .thread => fl.threadStep
  | .stop => fl.stopStep

end FileLogger

/-! ### The senders -/

/-- Where the `Run` of a sender is: before the test of `_run`, in `ConditionTimedWait`, before
    `PopFront`, with a message popped, timed out with a packet to send if it has a payload, or at its
    end.  `none` is a thread that has not been started. -/
inductive SenderPc where
  | none
  | test
  | wait
  | pop
  | add (msg : Message)
  | timedOut
  | done
deriving DecidableEq

/-- A sender with its thread; the messages that `Process` has returned true for and those of them
    from before `Stop` was called. -/
structure SenderThread where
  run : Bool
  queue : Queue Message
  pc : SenderPc
  sender : SenderState
  stop : StopPhase := .notCalled
  accepted : List Message := []
  beforeStop : List Message := []

/-- A step of a producer, of the thread (`ready` is the result of the wait, if it waits) or of the
    caller of `Stop`. -/
inductive SenderStep where
  | process (msg : Message)
  | thread (ready : Bool)
  | stop

namespace SenderThread

section

variable (io : StreamIO) (sendPacket : SenderState → SenderState) (flushes : Bool)
  (passes : Message → Bool)

/-- `Process`, with the filter a message has to pass. -/
def process (st : SenderThread) (msg : Message) : SenderThread :=
  if passes msg then
    let (rc, queue) := st.queue.pushBack msg
    { st with queue, accepted := if rc then st.accepted ++ [msg] else st.accepted }
  else
    st

/-- A step of `Run`.  The wait may end at any time, but it does not time out with messages in the
    queue.  `flushes` says whether a packet with a payload is sent after the loop. -/
def threadStep (ready : Bool) (st : SenderThread) : Option SenderThread :=
  match st.pc with
  | .none => none
  | .test =>
    if st.run then
      some { st with pc := .wait }
    else
      some { st with
        pc := .done
        sender := if flushes then sendIfPayload sendPacket st.sender else st.sender }
  | .wait =>
    if ready then some { st with pc := .pop }
    else if st.queue.entries = [] then some { st with pc := .timedOut }
    else none
  | .pop =>
    match st.queue.entries with
    | [] => some { st with pc := .test }
    | msg :: msgs =>
      some { st with queue := { st.queue with entries := msgs }, pc := .add msg }
  | .add msg => some { st with pc := .pop, sender := addOrSend io sendPacket st.sender msg }
  | .timedOut => some { st with pc := .test, sender := sendIfPayload sendPacket st.sender }
  | .done => none

/-- A step of `Stop`: it clears `_run`, signals the queue, and joins the thread if there is one. -/
def stopStep (st : SenderThread) : Option SenderThread :=
  match st.stop with
  | .notCalled => some { st with run := false, stop := .cleared, beforeStop := st.accepted }
  | .cleared => some { st with stop := .signalled }
  | .signalled =>
    if st.pc = .none ∨ st.pc = .done then some { st with stop := .returned } else none
  | .returned => none

/-- A step; `none` when it cannot be taken. -/
def step (st : SenderThread) : SenderStep → Option SenderThread
  | .process msg => some (st.process passes msg)
  | .thread ready => st.threadStep io sendPacket flushes ready
  | .stop => st.stopStep

end

/-- A sender with an empty packet, whose thread has been started or not. -/
def start (maxLength : Option Nat) (pkt : MessagePacket) (started : Bool) : SenderThread where
  run := started
  queue := { maxLength }
  pc := if started then .test else .none
  sender := ⟨pkt, []⟩

end SenderThread

/-- The steps of a `LoopbackSender`, which flushes its packet after the loop. -/
def LoopbackSender.step (io : StreamIO) : SenderThread → SenderStep → Option SenderThread :=
  SenderThread.step io LoopbackSender.sendPacket true fun _ => true

/-- After the constructor, which starts the thread if it can open a socket. -/
def LoopbackSender.start (pkt : MessagePacket) (started : Bool) : SenderThread :=
  SenderThread.start none pkt started

/-- The steps of a `MulticastSender`, with what its filter passes; it does not flush its packet. -/
def MulticastSender.step (io : StreamIO) (aead : Aead) (sender : MulticastSender)
    (passes : Message → Bool) : SenderThread → SenderStep → Option SenderThread :=
  SenderThread.step io (sender.sendPacket aead) false passes

/-- After `Open`, which may start the thread or not. -/
def MulticastSender.start (pkt : MessagePacket) (started : Bool) : SenderThread :=
  SenderThread.start (some 1000) pkt started

end Mclog
