import Mclog.Daemon
import Mclog.Shutdown

/-!
# The threads of mclogd

`main` of mclogd, the two receivers, the file logger and the multicast sender, each in a thread of its
own.  The loopback receiver hands what it reads to the multicast sender and to the file logger, the
multicast receiver to the file logger only, and the daemon's own messages go to both.  At a SIGHUP
`main` restarts the components one after another, and at a SIGTERM or SIGINT it stops them and exits.
All take their steps in any order.

That the configuration parses, and whether threads are started, is given with each restart
(`RestartResults`); `Daemon` says what it depends on.
-/

namespace Mclog

/-- Where a message that a sink gets comes from: a program of this host, another host, or the daemon
    itself. -/
inductive MessageSource where
  | loopback
  | multicast
  | own
deriving DecidableEq

/-- The sinks. -/
inductive DaemonSink where
  | mcastSender
  | fileLogger
deriving DecidableEq

/-- A call of a sink's `Process`, with its result. -/
structure ProcessCall where
  source : MessageSource
  msg : Message
  rc : Bool

/-! ### The receivers -/

/-- Where the `Run` of a receiver is: before the test of `_run`, in `select`, handing messages to one
    sink after another, or at its end.  `none` is a thread that has not been started. -/
inductive ReceiverPc where
  | none
  | test
  | select
  | hand (left : List (Message × DaemonSink))
  | done

/-- A receiver with its thread: `_run`, whether there is a byte in the stop pipe, and the messages
    read so far.  Before it is started it is as after `Stop`. -/
structure ReceiverThread where
  run : Bool := false
  stopByte : Bool := false
  pc : ReceiverPc := .none
  stop : StopPhase := .returned
  read : List Message := []

/-- A step of a receiver's thread: it goes on, or `select` returns with a datagram with some messages,
    with nothing to be read, or with the byte in the stop pipe. -/
inductive ReceiverEvent where
  | next
  | datagram (msgs : List Message)
  | nothing
  | stopped

namespace ReceiverThread

/-- The thread has ended, if there was one. -/
def Joinable (rt : ReceiverThread) : Prop :=
  match rt.pc with
  | .none | .done => True
  | _ => False

instance (rt : ReceiverThread) : Decidable rt.Joinable := by
  unfold Joinable
  split <;> infer_instance

/-- A step of `Run`, with the message that is handed to a sink.  `stopFirst` says whether the stop pipe
    is looked at before the sockets. -/
def threadStep (sinks : List DaemonSink) (stopFirst : Bool) (rt : ReceiverThread) :
    ReceiverEvent → Option (ReceiverThread × Option (Message × DaemonSink))
  | .next =>
    match rt.pc with
    | .test =>
      if rt.run then some ({ rt with pc := .select }, none)
      else some ({ rt with run := false, pc := .done }, none)
    | .hand [] => some ({ rt with pc := .test }, none)
    | .hand (m :: ms) => some ({ rt with pc := .hand ms }, some m)
    | _ => none
  | .datagram msgs =>
    match rt.pc with
    | .select =>
      if stopFirst && rt.stopByte then
        none
      else
        some ({ rt with
          pc := .hand (msgs.flatMap fun msg => sinks.map fun sink => (msg, sink))
          read := rt.read ++ msgs }, none)
    | _ => none
  | .nothing =>
    match rt.pc with
    | .select => some ({ rt with pc := .test }, none)
    | _ => none
  | .stopped =>
    match rt.pc with
    | .select =>
      if rt.stopByte then some ({ rt with run := false, pc := .done }, none) else none
    | _ => none

/-- A step of `Stop`: it clears `_run`, writes to the stop pipe, and joins the thread. -/
def stopStep (rt : ReceiverThread) : Option ReceiverThread :=
  match rt.stop with
  | .notCalled => some { rt with run := false, stop := .cleared }
  | .cleared => some { rt with stopByte := true, stop := .signalled }
  | .signalled => if rt.Joinable then some { rt with stop := .returned } else none
  | .returned => none

/-- After `Start` or `Open`, and whether the thread gets to its loop. -/
def start (loops : Bool) (rt : ReceiverThread) : ReceiverThread :=
  { rt with
    run := loops
    stopByte := false
    pc := if loops then .test else rt.pc
    stop := .notCalled }

end ReceiverThread

/-- `Start` of a file logger that may have run before, and whether logs are configured. -/
def FileLogger.startAgain (logs : Bool) (fl : FileLogger) : FileLogger :=
  if logs then { fl with run := true, pc := .test, stop := .notCalled }
  else { fl with stop := .notCalled }

/-- `Open` of a sender that may have run before: the packet of the thread that is started, if one
    is.  What was in the packet of the last one is gone. -/
def SenderThread.openAgain (pkt : Option MessagePacket) (st : SenderThread) : SenderThread :=
  match pkt with
  | some pkt =>
    { st with
      run := true
      pc := .test
      sender := ⟨pkt, st.sender.sent⟩
      stop := .notCalled }
  | none => { st with stop := .notCalled }

/-! ### The main thread -/

/-- The components that `main` stops. -/
inductive DaemonComponent where
  | loopbackReceiver
  | fileLogger
  | mcastSender
  | mcastReceiver
deriving DecidableEq

/-- What `main` does: it stops a component, or starts one.  `passes` is what the new filter of the
    sender passes; and when `Open` starts the sender's thread, `opened` are the sockets it has opened
    and the bytes that the buffer of the thread happens to hold. -/
inductive MainAction where
  | stop (c : DaemonComponent)
  | openMcastSender (passes : Message → Bool) (opened : Option (Sockets × Vector UInt8 1200))
  | startFileLogger (logs : Bool)
  | startLoopbackReceiver (loops : Bool)
  | openMcastReceiver (loops : Bool)
  | exit

/-- How the calls of `Restart` end, or those of `main` before its loop. -/
structure RestartResults where
  parsed : Bool
  logs : Bool
  passes : Message → Bool
  mcastSender : Bool
  opened : Option (Sockets × Vector UInt8 1200)
  mcastReceiver : Bool
  mcastReceiverLoops : Bool
  loopbackReceiverLoops : Bool

/-- `main` before its loop. -/
def startActions (r : RestartResults) : List MainAction :=
  [.openMcastSender r.passes r.opened, .startFileLogger r.logs,
    .startLoopbackReceiver r.loopbackReceiverLoops, .openMcastReceiver r.mcastReceiverLoops]

/-- `Restart`, which gives up after the first call that fails. -/
def restartActions (r : RestartResults) : List MainAction :=
  .stop .loopbackReceiver ::
    if r.parsed then
      [.stop .fileLogger, .startFileLogger r.logs, .stop .mcastSender,
        .openMcastSender r.passes r.opened] ++
        if r.mcastSender then
          [.stop .mcastReceiver, .openMcastReceiver r.mcastReceiverLoops] ++
            if r.mcastReceiver then
              [.stop .loopbackReceiver, .startLoopbackReceiver r.loopbackReceiverLoops]
            else
              []
        else
          []
    else
      []

/-- The branch of `main` for SIGTERM and SIGINT. -/
def exitActions : List MainAction :=
  [.stop .loopbackReceiver, .stop .mcastSender, .stop .fileLogger, .stop .mcastReceiver, .exit]

/-- mclogd: its components, what is left for `main` to do before it waits for a signal, whether it has
    exited, and the calls of the sinks so far. -/
structure DaemonThreads where
  fileLogger : FileLogger
  mcastSender : SenderThread
  loopbackReceiver : ReceiverThread := {}
  mcastReceiver : ReceiverThread := {}
  passes : Message → Bool := fun _ => true
  sockets : Option Sockets := none
  todo : List MainAction
  exited : Bool := false
  fileLoggerCalls : List ProcessCall := []
  mcastSenderCalls : List ProcessCall := []

/-- What happens in mclogd: a thread takes a step, a signal arrives while `main` waits for one, or a
    thread logs a message, to one sink after another. -/
inductive DaemonStep where
  | main
  | hup (r : RestartResults)
  | term
  | loopbackReceiver (e : ReceiverEvent)
  | mcastReceiver (e : ReceiverEvent)
  | fileLogger
  | mcastSender (ready : Bool)
  | log (msg : Message) (sink : DaemonSink)

namespace DaemonThreads

/-- Before `main` has started anything; `pkt` is a packet that no thread has. -/
def start (pkt : MessagePacket) (r : RestartResults) : DaemonThreads where
  fileLogger := { FileLogger.start [] with stop := .returned }
  mcastSender := { MulticastSender.start pkt false with stop := .returned }
  todo := startActions r

/-- `Process` of a sink. -/
def process (d : DaemonThreads) (source : MessageSource) (msg : Message) : DaemonSink → DaemonThreads
  | .fileLogger =>
    { d with
      fileLogger := d.fileLogger.process msg
      fileLoggerCalls := d.fileLoggerCalls ++ [⟨source, msg, (d.fileLogger.inQueue.pushBack msg).1⟩] }
  | .mcastSender =>
    { d with
      mcastSender := d.mcastSender.process d.passes msg
      mcastSenderCalls := d.mcastSenderCalls ++
        [⟨source, msg, d.passes msg && (d.mcastSender.queue.pushBack msg).1⟩] }

/-- What a step of a receiver's thread hands to a sink. -/
def handed (d : DaemonThreads) (source : MessageSource) :
    Option (Message × DaemonSink) → DaemonThreads
  | some (msg, sink) => d.process source msg sink
  | none => d

/-- How far the stopping of a component is. -/
def stopPhase (d : DaemonThreads) : DaemonComponent → StopPhase
  | .loopbackReceiver => d.loopbackReceiver.stop
  | .fileLogger => d.fileLogger.stop
  | .mcastSender => d.mcastSender.stop
  | .mcastReceiver => d.mcastReceiver.stop

/-- A step of a component's `Stop` or `Close`. -/
def stopStep (d : DaemonThreads) : DaemonComponent → Option DaemonThreads
  | .loopbackReceiver =>
    d.loopbackReceiver.stopStep.map fun rt => { d with loopbackReceiver := rt }
  | .fileLogger => d.fileLogger.stopStep.map fun fl => { d with fileLogger := fl }
  | .mcastSender => d.mcastSender.stopStep.map fun st => { d with mcastSender := st }
  | .mcastReceiver => d.mcastReceiver.stopStep.map fun rt => { d with mcastReceiver := rt }

/-- A step of `main`. -/
def mainStep (d : DaemonThreads) : Option DaemonThreads :=
  match d.todo with
  | [] => none
  | .stop c :: todo =>
    if d.stopPhase c = .returned then some { d with todo } else d.stopStep c
  | .openMcastSender passes opened :: todo =>
    some { d with
      mcastSender := d.mcastSender.openAgain (opened.bind fun o => MessagePacket.ofBuf o.2.toList)
      passes
      sockets := opened.map Prod.fst
      todo }
  | .startFileLogger logs :: todo =>
    some { d with fileLogger := d.fileLogger.startAgain logs, todo }
  | .startLoopbackReceiver loops :: todo =>
    some { d with loopbackReceiver := d.loopbackReceiver.start loops, todo }
  | .openMcastReceiver loops :: todo =>
    some { d with mcastReceiver := d.mcastReceiver.start loops, todo }
  | .exit :: _ => some { d with todo := [], exited := true }

section

variable (io : StreamIO) (aead : Aead) (key : Str) (nonces : Nat → Nonce)

/-- `SendPacket` of the multicast sender, with the sockets it has open. -/
def sendPacket (d : DaemonThreads) (s : SenderState) : SenderState :=
  match d.sockets with
  | some sockets => MulticastSender.sendPacket aead { key, sockets, nonces } s
  | none => s

/-- A step; `none` when it cannot be taken. -/
def step (d : DaemonThreads) (e : DaemonStep) : Option DaemonThreads :=
  if d.exited then
    none
  else
    match e with
    | .main => d.mainStep
    | .hup r => if d.todo.isEmpty then some { d with todo := restartActions r } else none
    | .term => if d.todo.isEmpty then some { d with todo := exitActions } else none
    | .loopbackReceiver e =>
      (d.loopbackReceiver.threadStep [.mcastSender, .fileLogger] false e).map fun p =>
        { d with loopbackReceiver := p.1 }.handed .loopback p.2
    | .mcastReceiver e =>
      (d.mcastReceiver.threadStep [.fileLogger] true e).map fun p =>
        { d with mcastReceiver := p.1 }.handed .multicast p.2
    | .fileLogger => d.fileLogger.threadStep.map fun fl => { d with fileLogger := fl }
    | .mcastSender ready =>
      (d.mcastSender.threadStep io (d.sendPacket aead key nonces) false ready).map fun st =>
        { d with mcastSender := st }
    | .log msg sink => some (d.process .own msg sink)

end

end DaemonThreads

end Mclog
