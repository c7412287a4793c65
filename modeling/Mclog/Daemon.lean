import Mclog.ConfigFile

/-!
# mclogd

The daemon with its four components: the loopback receiver, the file logger, the multicast sender and
the multicast receiver.  `main` parses the configuration file and starts them; at each SIGHUP
`Restart` parses the file again and restarts them one after another.
-/

namespace Mclog

/-! ### What a configuration asks for -/

/-- `ListenIpv4`. -/
def LoopbackConfig.wantsIpv4 (cfg : LoopbackConfig) : Bool := cfg.listenIpv4 && cfg.port ≠ 0

/-- `ListenIpv6`. -/
def LoopbackConfig.wantsIpv6 (cfg : LoopbackConfig) : Bool := cfg.listenIpv6 && cfg.port ≠ 0

namespace MulticastConfig

variable (cfg : MulticastConfig)

/-- `ShouldSendIpv4`. -/
def shouldSendIpv4 : Bool := cfg.intfAddr ≠ 0 && cfg.dstPort ≠ 0

/-- `ShouldSendIpv6`. -/
def shouldSendIpv6 : Bool := cfg.intfName ≠ [] && cfg.intfAddr6 ≠ 0 && cfg.dstPort ≠ 0

/-- `ShouldRunSender`. -/
def shouldRunSender : Bool := cfg.shouldSendIpv4 || cfg.shouldSendIpv6

/-- `shouldJoin4` of `MulticastReceiver::Open`. -/
def shouldJoin4 : Bool := cfg.groupAddr ≠ 0 && cfg.intfAddr ≠ 0

/-- `shouldJoin6` of `MulticastReceiver::Open`. -/
def shouldJoin6 : Bool := cfg.intfName ≠ [] && cfg.groupAddr6 ≠ 0 && cfg.intfAddr6 ≠ 0

end MulticastConfig

namespace Mclogd

/-- The thread of a component: whether it is running, and the configuration that it was last started
    with. -/
structure Thread (γ : Type) where
  running : Bool := false
  startedWith : Option γ := none
deriving DecidableEq

/-- A thread started with a configuration. -/
def Thread.start {γ : Type} (cfg : γ) : Thread γ where
  running := true
  startedWith := some cfg

/-- A thread that has ended. -/
def Thread.stop {γ : Type} (t : Thread γ) : Thread γ := { t with running := false }

/-- Whether the system calls that a component makes to start succeed: those for its IPv4 socket, those
    for its IPv6 socket, and `pipe`. -/
structure StartCalls where
  ipv4 : Bool := true
  ipv6 : Bool := true
  pipe : Bool := true

/-! ### The components -/

/-- `LoopbackReceiver`, with the sockets it has open. -/
structure LoopbackReceiver where
  config : Config := {}
  ifd : Bool := false
  ifd6 : Bool := false
  thread : Thread Config := {}
deriving DecidableEq

namespace LoopbackReceiver

/-- `Stop`: the thread closes the sockets when it ends. -/
def stop (lr : LoopbackReceiver) : LoopbackReceiver :=
  { lr with ifd := false, ifd6 := false, thread := lr.thread.stop }

/-- The beginning of `Run`: the sockets are opened, and if they are not those desired, the thread
    ends. -/
def run (calls : StartCalls) (lr : LoopbackReceiver) : LoopbackReceiver :=
  let ifd := if lr.config.loopback.wantsIpv4 then calls.ipv4 else lr.ifd
  let ifd6 := if lr.config.loopback.wantsIpv6 then calls.ipv6 else lr.ifd6
  let desiredSocketsOpen :=
    ifd == lr.config.loopback.wantsIpv4 && ifd6 == lr.config.loopback.wantsIpv6
  if desiredSocketsOpen then
    { lr with ifd, ifd6, thread := .start lr.config }
  else
    { lr with ifd := false, ifd6 := false, thread := (Thread.start lr.config).stop }

/-- `Start`, with what its thread does first. -/
def start (calls : StartCalls) (config : Config) (lr : LoopbackReceiver) :
    Bool × LoopbackReceiver :=
  let lr := { lr with config }
  if calls.pipe then (true, lr.run calls) else (false, lr)

/-- `Restart`. -/
def restart (calls : StartCalls) (config : Config) (lr : LoopbackReceiver) :
    Bool × LoopbackReceiver :=
  lr.stop.start calls config

end LoopbackReceiver

/-- `FileLogger`.  Its `LogFiles` are configured when its thread is started. -/
structure FileLogger where
  thread : Thread FilesConfig := {}
deriving DecidableEq

namespace FileLogger

/-- `Start`. -/
def start (filescfg : FilesConfig) (fl : FileLogger) : Bool × FileLogger :=
  if filescfg.logs.isEmpty then (true, fl) else (true, { fl with thread := .start filescfg })

/-- `Stop`. -/
def stop (fl : FileLogger) : FileLogger := { fl with thread := fl.thread.stop }

/-- `Restart`. -/
def restart (filescfg : FilesConfig) (fl : FileLogger) : Bool × FileLogger :=
  fl.stop.start filescfg

end FileLogger

/-- `MulticastSender`, with the sockets it has open, the expression that its `MessageFilterDriver` was
    made of, and whether its `KeyRequestListener` is running. -/
structure MulticastSender where
  config : Config := {}
  fd : Bool := false
  fd6 : Bool := false
  filterDriver : Option Str := none
  keyRequestListener : Bool := false
  thread : Thread Config := {}
deriving DecidableEq

namespace MulticastSender

/-- `Close`. -/
def close (ms : MulticastSender) : MulticastSender :=
  { ms with keyRequestListener := false, thread := ms.thread.stop, fd := false, fd6 := false }

/-- The part of `Open` that opens the sockets and starts the threads. -/
def openSockets (calls : StartCalls) (ms : MulticastSender) : Bool × MulticastSender :=
  let mcast := ms.config.mcast
  let fd := if mcast.shouldSendIpv4 then ms.fd || calls.ipv4 else ms.fd
  let fd6 := if mcast.shouldSendIpv6 then ms.fd6 || calls.ipv6 else ms.fd6
  let desiredSocketsOpen := fd == mcast.shouldSendIpv4 && fd6 == mcast.shouldSendIpv6
  let ms := { ms with fd, fd6 }
  if desiredSocketsOpen && !ms.keyRequestListener && calls.pipe then
    (true, { ms with keyRequestListener := true, thread := .start ms.config })
  else
    (false, ms)

/-- `Open`: its result, where `none` is the exception of a filter that is no filter expression. -/
def «open» (driver : MessageFilterDriver) (calls : StartCalls) (config : Config)
    (ms : MulticastSender) : Option Bool × MulticastSender :=
  let ms := { ms with config }
  if config.mcast.outFilter ≠ [] ∧ !driver.valid config.mcast.outFilter then
    -- The exception is thrown before the old driver is replaced.
    (none, ms)
  else
    let ms := { ms with
      filterDriver := if config.mcast.outFilter = [] then none else some config.mcast.outFilter }
    if !config.mcast.shouldRunSender then
      (some true, ms)
    else
      let (rc, ms) := ms.openSockets calls
      (some rc, ms)

/-- `Restart`. -/
def restart (driver : MessageFilterDriver) (calls : StartCalls) (config : Config)
    (ms : MulticastSender) : Option Bool × MulticastSender :=
  ms.close.open driver calls config

end MulticastSender

/-- `MulticastReceiver`, with the sockets it has open. -/
structure MulticastReceiver where
  config : Config := {}
  fd : Bool := false
  fd6 : Bool := false
  acceptLocal : Bool := true
  thread : Thread Config := {}
deriving DecidableEq

namespace MulticastReceiver

/-- `Close`. -/
def close (mr : MulticastReceiver) : MulticastReceiver :=
  { mr with thread := mr.thread.stop, fd := false, fd6 := false }

/-- `Open`.  One of two groups is enough. -/
def «open» (calls : StartCalls) (cfg : Config) (acceptLocal : Bool) (mr : MulticastReceiver) :
    Bool × MulticastReceiver :=
  let mr := { mr with config := cfg, acceptLocal }
  let shouldJoin4 := cfg.mcast.shouldJoin4
  let shouldJoin6 := cfg.mcast.shouldJoin6
  if !(shouldJoin4 || shouldJoin6) then
    (true, mr)
  else
    let fd := if shouldJoin4 then mr.fd || calls.ipv4 else mr.fd
    let fd6 := if shouldJoin6 then mr.fd6 || calls.ipv6 else mr.fd6
    let mr := { mr with fd, fd6 }
    if (shouldJoin4 && fd || shouldJoin6 && fd6) && calls.pipe then
      (true, { mr with thread := .start cfg })
    else
      (false, mr.close)

/-- `Restart`. -/
def restart (calls : StartCalls) (cfg : Config) (mr : MulticastReceiver) :
    Bool × MulticastReceiver :=
  mr.close.open calls cfg mr.acceptLocal

end MulticastReceiver

end Mclogd

/-! ### The daemon -/

open Mclogd

/-- mclogd: `g_config`, the scanner of configuration files, and the four components. -/
structure Daemon where
  config : Config := {}
  scanner : ScannerState := {}
  loopbackReceiver : LoopbackReceiver := {}
  fileLogger : FileLogger := {}
  mcastSender : Mclogd.MulticastSender := {}
  mcastReceiver : Mclogd.MulticastReceiver := {}

/-- The configuration file as it is read at the start or at a SIGHUP, and the system calls that the
    components make then. -/
structure Reload where
  file : ParseCall
  loopbackReceiver : StartCalls := {}
  mcastSender : StartCalls := {}
  mcastReceiver : StartCalls := {}

namespace Daemon

section

variable (libs : ConfigFile.Libraries) (driver : MessageFilterDriver)

/-- The configuration is parsed. -/
def parseConfig (d : Daemon) (file : ParseCall) : Option Bool × Daemon :=
  let parsed := Config.parse libs d.scanner d.config file
  (parsed.1.1, { d with config := parsed.1.2, scanner := parsed.2 })

/-- `main`, up to the loop; `none` if it does not get there. -/
def start (r : Reload) : Option Daemon :=
  match ({} : Daemon).parseConfig libs r.file with
  | (some true, d) =>
    match d.mcastSender.open driver r.mcastSender d.config with
    | (none, _) => none
    | (some _, mcastSender) =>
      some { d with
        mcastSender
        fileLogger := (d.fileLogger.start d.config.files).2
        loopbackReceiver := (d.loopbackReceiver.start r.loopbackReceiver d.config).2
        mcastReceiver := (d.mcastReceiver.open r.mcastReceiver d.config false).2 }
  | _ => none

/-- The part of `Restart` after the configuration has been parsed. -/
def restartComponents (d : Daemon) (r : Reload) : Option Bool × Daemon :=
  match d.fileLogger.restart d.config.files with
  | (false, fileLogger) => (some false, { d with fileLogger })
  | (true, fileLogger) =>
    match d.mcastSender.restart driver r.mcastSender d.config with
    | (none, mcastSender) => (none, { d with fileLogger, mcastSender })
    | (some false, mcastSender) => (some false, { d with fileLogger, mcastSender })
    | (some true, mcastSender) =>
      match d.mcastReceiver.restart r.mcastReceiver d.config with
      | (false, mcastReceiver) => (some false, { d with fileLogger, mcastSender, mcastReceiver })
      | (true, mcastReceiver) =>
        let (rc, loopbackReceiver) := d.loopbackReceiver.restart r.loopbackReceiver d.config
        (some rc, { d with fileLogger, mcastSender, mcastReceiver, loopbackReceiver })

/-- `Restart`: its result, where `none` is an exception. -/
def restart (d : Daemon) (r : Reload) : Option Bool × Daemon :=
  -- The loopback receiver is stopped before the file is known to be good.
  match ({ d with loopbackReceiver := d.loopbackReceiver.stop }).parseConfig libs r.file with
  | (none, d) => (none, d)
  | (some false, d) => (some false, d)
  | (some true, d) => d.restartComponents driver r

/-- The loop of `main` at one SIGHUP after another, with the results of `Restart`.  An exception ends
    the process. -/
def reloads : General.Machine Daemon Reload Bool := fun d r =>
  match d.restart libs driver r with
  | (none, _) => none
  | (some rc, d) => some (d, [rc])

end

end Daemon

end Mclog
