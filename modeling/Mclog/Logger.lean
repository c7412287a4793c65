import Mclog.General.Locks
import Mclog.LogFiles

/-!
# The logger

`Logger::Log` hands a message to its sinks, with `_sinksMtx` locked.  The sinks that are or have log
files lock mutexes of their own, and log with `MCLOG`, which is `Log` of the same logger, when they
open a log file or roll it.  What a thread does is what `Log` does to the sinks, and the locks it
takes.
-/

namespace Mclog

open General

/-! ### What a log file logs -/

/-- The results of `chmod` and `chown` when a log file is opened. -/
structure OpenModes where
  chmod : Bool := true
  chown : Bool := true

/-- The severity `SetPermissions` and `SetOwnership` log their result with. -/
def modeSeverity (ok : Bool) : Severity := if ok then .info else .warning

namespace LogFile

variable (plat : Platform) (env : Env) (modes : OpenModes)

/-- The severities that `Roll` logs with. -/
def rollLogged (lf : LogFile) (w : World) : List Severity :=
  if (lf.roll plat env w).1 then [.info] else []

/-- The severities that the end of `OpenNoLock` logs with. -/
def openFileLogged (lf : LogFile) (w : World) : List Severity :=
  match if (parentPath lf.path).isEmpty then none else env.ensureParentDirectory with
  | none => []
  | some false => [.err]
  | some true =>
    if env.fails .open ∨ w.disk.IsDirectory (key plat lf.path) then
      [.err]
    else
      [.info, modeSeverity modes.chmod, modeSeverity modes.chown]

/-- The severities that `OpenNoLock` logs with. -/
def openNoLockLogged (lf : LogFile) (w : World) : List Severity :=
  if lf.ofs.isSome then
    [.info]
  else if lf.needRollBeforeOpen plat env w.disk then
    let (rolled, lf', w') := lf.roll plat env w
    lf.rollLogged plat env w ++ if rolled then lf'.openFileLogged plat env modes w' else []
  else
    lf.openFileLogged plat env modes w

/-- The severities that `Process` logs with. -/
def processLogged (lf : LogFile) (w : World) (msg : Message) : List Severity :=
  if lf.ofs.isSome ∧ lf.rollCriteriaMet env msg then
    let (lf, w) := lf.close env w
    let (rolled, lf', w') := lf.roll plat env w
    let opened := (lf'.openNoLock plat env w').1
    lf.rollLogged plat env w ++
      if rolled then
        lf'.openNoLockLogged plat env modes w' ++ if opened = some true then [.info] else []
      else
        []
  else
    []

end LogFile

/-! ### The sinks -/

/-- The mutexes: those of the logger and of its sinks, those of the log files of a `LogFiles`, and
    others. -/
inductive Mutex where
  | sinksMtx
  | sink (i : Nat)
  | logFile (i : Nat) (path : Str)
  | other (n : Nat)
deriving DecidableEq

/-- The results of the system calls made while a sink processes a message, path by path. -/
structure SinkCall where
  openEnv : Str → Env := fun _ => {}
  processEnv : Str → Env := fun _ => {}
  /-- Of an opening in `Open` and in `Process`. -/
  openModes : Str → OpenModes := fun _ => {}
  processModes : Str → OpenModes := fun _ => {}
  time : Int := 0
  /-- Whether an output stream is good. -/
  good : Bool := true

/-- The call as `LogFiles` gets it. -/
def SinkCall.delivery (call : SinkCall) (msg : Message) : Delivery where
  msg := msg
  openEnv := call.openEnv
  processEnv := call.processEnv
  time := call.time

/-- The `MessageSink` classes. -/
inductive Sink where
  | logFile (lf : LogFile)
  | logFiles (lfs : LogFiles)
  | fileLogger (inQueue : Queue Message)
  | loopbackSender (msgs : Queue Message)
  | multicastSender (filterDriver : Option Str) (outQueue : Queue Message)
  | ostreamSink
  | syslogSink

section

variable (plat : Platform) (driver : MessageFilterDriver) (regexReplace : Str → Str → Str)

/-- The body of the loop of `LogFiles::Process`: the severities logged with by each call of a log
    file. -/
def LogFiles.pathLogged (lfs : LogFiles) (w : World) (call : SinkCall) (msg : Message) (path : Str)
    (cfg : LogFileConfig) : List (List Severity) :=
  match lfs.logFiles.lookup path with
  | some lf => [lf.processLogged plat (call.processEnv path) (call.processModes path) w msg]
  | none =>
    let lf := LogFile.of plat path cfg call.time
    lf.openNoLockLogged plat (call.openEnv path) (call.openModes path) w ::
      match lf.openNoLock plat (call.openEnv path) w with
      | (none, _) => []
      | (some _, lf, w) =>
        [lf.processLogged plat (call.processEnv path) (call.processModes path) w msg]

/-- The loop of `LogFiles::Process`: each call of a log file, with its path. -/
def LogFiles.pathsLogged (call : SinkCall) (msg : Message) :
    List (Str × LogFileConfig) → LogFiles → World → List (Str × List Severity)
  | [], _, _ => []
  | (path, cfg) :: logPaths, lfs, w =>
    (lfs.pathLogged plat w call msg path cfg).map (fun logged => (path, logged)) ++
      match lfs.processPath plat w (call.delivery msg) path cfg with
      | (none, _) => []
      | (some _, lfs, w) => LogFiles.pathsLogged call msg logPaths lfs w

/-- The calls of log files in `LogFiles::Process`, with the severities they log with. -/
def LogFiles.processLogged (lfs : LogFiles) (w : World) (call : SinkCall) (msg : Message) :
    List (Str × List Severity) :=
  let (cache, logPaths) := logPathConfigs driver regexReplace lfs.filesConfig.logDirectory msg
    lfs.filteredLogConfigs lfs.logPathCache []
  LogFiles.pathsLogged plat call msg logPaths { lfs with logPathCache := cache } w

namespace Sink

/-- `Process`: its result, where `none` is an exception. -/
def process (w : World) (call : SinkCall) (msg : Message) : Sink → Option Bool × Sink × World
  | .logFile lf =>
    let (rc, lf, w) := lf.process plat (call.processEnv lf.path) w msg
    (rc, .logFile lf, w)
  | .logFiles lfs =>
    let (rc, lfs, w) := lfs.process plat driver regexReplace w (call.delivery msg)
    (rc, .logFiles lfs, w)
  | .fileLogger inQueue =>
    let (rc, inQueue) := inQueue.pushBack msg
    (some rc, .fileLogger inQueue, w)
  | .loopbackSender msgs =>
    let (rc, msgs) := msgs.pushBack msg
    (some rc, .loopbackSender msgs, w)
  | .multicastSender filterDriver outQueue =>
    if filterDriver.all fun expr => driver.accepts expr msg then
      let (rc, outQueue) := outQueue.pushBack msg
      (some rc, .multicastSender filterDriver outQueue, w)
    else
      (some false, .multicastSender filterDriver outQueue, w)
  | .ostreamSink => (some call.good, .ostreamSink, w)
  | .syslogSink => (some true, .syslogSink, w)

/-- The severities that `Process` logs with. -/
def logged (w : World) (call : SinkCall) (msg : Message) : Sink → List Severity
  | .logFile lf =>
    lf.processLogged plat (call.processEnv lf.path) (call.processModes lf.path) w msg
  | .logFiles lfs => (lfs.processLogged plat driver regexReplace w call msg).flatMap Prod.snd
  | _ => []

/-- The locks that `Process` of the `i`-th object takes, with those of `MCLOG` at each severity. -/
def actions (i : Nat) (mclog : Severity → List (LockAction Mutex)) (w : World) (call : SinkCall)
    (msg : Message) : Sink → List (LockAction Mutex)
  | .logFile lf =>
    LockAction.guarded (.sink i)
      ((lf.processLogged plat (call.processEnv lf.path) (call.processModes lf.path) w msg).flatMap
        mclog)
  | .logFiles lfs =>
    LockAction.guarded (.sink i)
      ((lfs.processLogged plat driver regexReplace w call msg).flatMap fun c =>
        LockAction.guarded (.logFile i c.1) (c.2.flatMap mclog))
  | .ostreamSink => LockAction.guarded (.sink i) []
  | _ => []

end Sink

end

/-! ### The logger -/

/-- `Logger`; `_sinks` says which objects its sinks are, in their order. -/
structure Logger where
  origin : MessageOrigin
  facility : Facility
  minimumSeverity : Severity
  sinks : List Nat

/-- The objects that are sinks, and the world. -/
structure SinkState where
  objects : Nat → Sink
  world : World

/-- A call of `Log`: the message's severity, text and timestamp, the system calls made for each sink
    in its turn, and the mutexes that the thread holds, which are those of no sink. -/
structure LogCall where
  severity : Severity
  text : ShortString 1500
  timestamp : Timestamp
  calls : Nat → SinkCall := fun _ => {}
  held : List Nat := []

/-- A sink's turn: the object, and what it finds. -/
structure Turn where
  i : Nat
  sink : Sink
  world : World
  call : SinkCall

namespace Logger

section

variable (plat : Platform) (driver : MessageFilterDriver) (regexReplace : Str → Str → Str)

/-- `Log` returns before it locks `_sinksMtx`. -/
def ReturnsEarly (lg : Logger) (severity : Severity) : Prop :=
  severity.code > lg.minimumSeverity.code ∨ lg.origin.procid = 0

instance (lg : Logger) (severity : Severity) : Decidable (lg.ReturnsEarly severity) := by
  unfold ReturnsEarly
  infer_instance

/-- The locks of an `MCLOG` in a sink.  The thread holds `_sinksMtx`, and what is inside this guard
    is never reached. -/
def mclog (lg : Logger) (severity : Severity) : List (LockAction Mutex) :=
  if lg.ReturnsEarly severity then [] else LockAction.guarded .sinksMtx []

/-- `logmsg`. -/
def logmsg (lg : Logger) (c : LogCall) : Message :=
  ⟨⟨c.timestamp, lg.facility, c.severity, lg.origin⟩, c.text⟩

/-- The loop over the sinks, which an exception ends: the turns, the result and the state after
    it. -/
def processSinks (msg : Message) (calls : Nat → SinkCall) :
    List Nat → Nat → SinkState → List Turn × Option Bool × SinkState
  | [], _, s => ([], some true, s)
  | i :: sinks, k, s =>
    let turn : Turn := ⟨i, s.objects i, s.world, calls k⟩
    match (s.objects i).process plat driver regexReplace s.world (calls k) msg with
    | (none, sink, w) => ([turn], none, ⟨Function.update s.objects i sink, w⟩)
    | (some rc, sink, w) =>
      let (turns, rest, s) :=
        processSinks msg calls sinks (k + 1) ⟨Function.update s.objects i sink, w⟩
      (turn :: turns, rest.map fun r => rc && r, s)

/-- The turns of a call of `Log` that does not return early. -/
def turns (lg : Logger) (s : SinkState) (c : LogCall) : List Turn :=
  (processSinks plat driver regexReplace (lg.logmsg c) c.calls lg.sinks 0 s).1

/-- `Log`: the locks it takes, its result, where `none` is an exception, and the sinks after it. -/
def log (lg : Logger) (s : SinkState) (c : LogCall) :
    List (LockAction Mutex) × Option Bool × SinkState :=
  if c.severity.code > lg.minimumSeverity.code then
    ([], some true, s)
  else if lg.origin.procid = 0 then
    ([], some false, s)
  else
    let (turns, rc, s) := processSinks plat driver regexReplace (lg.logmsg c) c.calls lg.sinks 0 s
    (LockAction.guarded .sinksMtx (turns.flatMap fun t =>
      t.sink.actions plat driver regexReplace t.i lg.mclog t.world t.call (lg.logmsg c)), rc, s)

/-- A logger as a machine: calls in, results out.  It aborts when the thread blocks on a mutex that
    it holds. -/
def machine (lg : Logger) : Machine SinkState LogCall (Option Bool) := fun s c =>
  let (actions, rc, s') := lg.log plat driver regexReplace s c
  (LockAction.run (c.held.map .other) actions).map fun _ => (s', [rc])

end

end Logger

end Mclog
